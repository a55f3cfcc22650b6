import TigerDuck.Auth.Lineages

/-!
# Contests

A first use settles the contest of its session: the other live sessions of the lineage are
superseded. A rotation settles it too and goes on to a new session; the rotation of a token that
was rotated before adds a session to the ring of those it left, and drops the oldest beyond
sixteen. Each of them works on one lineage and leaves it one of those of `Shape`
(`Lineages.turnover`).
-/

namespace TigerDuck.Auth

open Relational

variable {db db' : Db} {h h' : History} {id x y ρ : SessionId} {now : Time}

/-! ### Writes to one lineage -/

/-- A write to the sessions of the sign-in `ρ`, among them any that are new, after which they
are as those of a sign-in are. -/
structure Turnover (db db' : Db) (h h' : History) (ρ : SessionId) : Prop where
  nextSession : db.nextSession ≤ db'.nextSession
  root : ∀ k, k < db.nextSession ∨ db'.nextSession ≤ k → h'.root k = h.root k
  rotatedFrom : ∀ k, k < db.nextSession ∨ db'.nextSession ≤ k → h'.rotatedFrom k = h.rotatedFrom k
  used_eq : h'.used = h.used
  superseded_eq : h'.superseded = h.superseded
  /-- The new sessions. -/
  born : ∀ k, db.nextSession ≤ k → k < db'.nextSession → h'.root k = ρ ∧ ρ ≤ k ∧
    ∀ parent, h'.rotatedFrom k = some parent → parent < k ∧ h'.root parent = ρ
  elsewhere : ∀ k, h'.root k ≠ ρ → db'.sessions.get k = db.sessions.get k
  bound : ∀ k row', h'.root k = ρ → db'.sessions.get k = some row' → k < db'.nextSession
  next : ∀ k row' next, h'.root k = ρ → db'.sessions.get k = some row' →
    row'.replacedBySessionId = some next → next < db'.nextSession ∧ h'.root next = ρ
  used : ∀ k row', h'.root k = ρ → db'.sessions.get k = some row' → h.used k = true →
    row'.firstUsedAt.isSome = true
  superseded : ∀ k row', h'.root k = ρ → db'.sessions.get k = some row' →
    h.superseded k = true → row'.revokedReason = some .superseded
  supersededUnused : ∀ k row', h'.root k = ρ → db'.sessions.get k = some row' →
    row'.revokedReason = some .superseded → row'.firstUsedAt = none
  unrevoked : ∀ k row', h'.root k = ρ → db'.sessions.get k = some row' →
    row'.revokedAt = none → row'.revokedReason = none
  sameDevice : ∃ d, ∀ k row', h'.root k = ρ → db'.sessions.get k = some row' → row'.deviceId = d
  childless : ∀ k parent, h'.root parent = ρ → h'.rotatedFrom k = some parent →
    db'.live parent = false
  rotated : ∀ k row' next, h'.root k = ρ → db'.sessions.get k = some row' →
    row'.revokedReason = some .rotated → row'.replacedBySessionId = some next →
    h'.rotatedFrom next = some k
  shape : Shape db' (siblings db' h'.root ρ)
  newest : ∀ k row' next row'', h'.root k = ρ → db'.sessions.get k = some row' →
    row'.revokedReason = some .rotated → row'.replacedBySessionId = some next →
    db'.sessions.get next = some row'' → row''.revokedAt = none → row''.firstUsedAt = none →
    siblings db' h'.root ρ = newest (children db' h'.rotatedFrom k) ∧
      (children db' h'.rotatedFrom k).getLast? = some next ∧
      ∀ child, h'.rotatedFrom child = some k → (h'.observe db').used child = false

/-- Two ascending lists with the same elements are the same. -/
theorem eq_of_ascending {l₁ l₂ : List SessionId} (h₁ : l₁.Pairwise (· < ·))
    (h₂ : l₂.Pairwise (· < ·)) (h : ∀ a, a ∈ l₁ ↔ a ∈ l₂) : l₁ = l₂ :=
  h₁.eq_of_mem_iff h₂ h

namespace Turnover

/-- Sessions of other sign-ins are the same. -/
theorem live_eq (ht : Turnover db db' h h' ρ) (hx : h'.root x ≠ ρ) : db'.live x = db.live x := by
  unfold Db.live
  rw [ht.elsewhere x hx]

/-- The root of a session that was there before. -/
theorem root_of_row (ht : Turnover db db' h h' ρ) (hl : Lineages db h) {row : AuthSession}
    (hrow : db.sessions.get x = some row) : h'.root x = h.root x :=
  ht.root x (Or.inl (hl.bound x row hrow))

/-- The live sessions of the other sign-ins are the same. -/
theorem siblings_eq (ht : Turnover db db' h h' ρ) (hl : Lineages db h) {σ : SessionId}
    (hσ : σ ≠ ρ) : siblings db' h'.root σ = siblings db h.root σ := by
  refine eq_of_ascending (siblings_sorted _ _) (siblings_sorted _ _) fun x => ?_
  rw [mem_siblings, mem_siblings]
  constructor
  · rintro ⟨_, hlive, hroot⟩
    rw [ht.live_eq (hroot ▸ hσ)] at hlive
    obtain ⟨row, hrow, _⟩ := Db.live_iff.mp hlive
    exact ⟨hl.bound x row hrow, hlive, ht.root_of_row hl hrow ▸ hroot⟩
  · rintro ⟨hlt, hlive, hroot⟩
    have hroot' : h'.root x = σ := (ht.root x (Or.inl hlt)).trans hroot
    rw [ht.live_eq (hroot' ▸ hσ)]
    exact ⟨hlt.trans_le ht.nextSession, hlive, hroot'⟩

/-- The shape of the other sign-ins is the same. -/
theorem shape_elsewhere (ht : Turnover db db' h h' ρ) (hl : Lineages db h) {σ : SessionId}
    (hσ : σ ≠ ρ) : Shape db' (siblings db' h'.root σ) := by
  rw [ht.siblings_eq hl hσ]
  have hshape := hl.shape σ
  have hrows : ∀ x ∈ siblings db h.root σ, db'.sessions.get x = db.sessions.get x := fun x hx => by
    obtain ⟨hlt, _, hroot⟩ := mem_siblings.mp hx
    refine ht.elsewhere x ?_
    rw [ht.root x (Or.inl hlt), hroot]
    exact hσ
  generalize siblings db h.root σ = ids at hshape hrows ⊢
  cases hshape with
  | ended => exact Shape.ended
  | settled x hx =>
    refine Shape.settled x ?_
    rw [Db.next, hrows x (List.mem_singleton_self x)]
    exact hx
  | contested _ hmin hmax hunused hring =>
    refine Shape.contested ids hmin hmax (fun x hx => ?_) (hring.congr fun x hx => ?_)
    · rw [Db.isUsed, hrows x hx]
      exact hunused x hx
    · cases hrival : db.rival x with
      | none => exact absurd hrival (hring.next_ne_none hx)
      | some y =>
        have hy := hrows y (hring.next_mem hx hrival)
        obtain ⟨row, hrow, hpoints⟩ := Option.bind_eq_some_iff.mp hrival
        rw [Db.rival, hrows x hx, hrow, Option.bind_some]
        split at hpoints
        next hrevoked =>
          have hlink := (Option.filter_eq_some_iff.mp hpoints).1
          rw [if_pos hrevoked, Db.pointee, hlink, Option.filter_some, hy, if_pos]
          exact (Option.filter_eq_some_iff.mp hpoints).2
        next => cases hpoints

end Turnover

/-- **A write to one lineage** keeps what holds of the sessions. -/
theorem Lineages.turnover (hl : Lineages db h) (ht : Turnover db db' h h' ρ) :
    Lineages db' (h'.observe db') := by
  -- A row of another sign-in is the row it was.
  have hold : ∀ k row', h'.root k ≠ ρ → db'.sessions.get k = some row' →
      db.sessions.get k = some row' ∧ h'.root k = h.root k := fun k row' hk hrow' => by
    rw [ht.elsewhere k hk] at hrow'
    exact ⟨hrow', ht.root_of_row hl hrow'⟩
  have hchild : ∀ k parent, h'.rotatedFrom k = some parent →
      parent < k ∧ h'.root k = h'.root parent := by
    intro k parent hparent
    rcases Nat.lt_or_ge k db.nextSession with hlt | hge
    · have hparent' := hparent
      rw [ht.rotatedFrom k (Or.inl hlt)] at hparent'
      obtain ⟨hbelow, hroot⟩ := hl.child k parent hparent'
      refine ⟨hbelow, ?_⟩
      rw [ht.root k (Or.inl hlt), ht.root parent (Or.inl (Nat.lt_trans hbelow hlt)), hroot]
    · rcases Nat.lt_or_ge k db'.nextSession with hlt' | hge'
      · obtain ⟨hroot, _, hborn⟩ := ht.born k hge hlt'
        obtain ⟨hbelow, hroot'⟩ := hborn parent hparent
        exact ⟨hbelow, by rw [hroot, hroot']⟩
      · rw [ht.rotatedFrom k (Or.inr hge'), (hl.fresh k (Nat.le_trans ht.nextSession hge')).1]
          at hparent
        cases hparent
  have hbound : ∀ k row', db'.sessions.get k = some row' → k < db'.nextSession := by
    intro k row' hrow'
    by_cases hk : h'.root k = ρ
    · exact ht.bound k row' hk hrow'
    · exact Nat.lt_of_lt_of_le (hl.bound k row' (hold k row' hk hrow').1) ht.nextSession
  have hused : ∀ k, (h'.observe db').used k =
      (h.used k || (db'.sessions.get k).any (·.firstUsedAt.isSome)) := fun k => by
    show (h'.used k || _) = _
    rw [ht.used_eq]
  have hsuperseded : ∀ k, (h'.observe db').superseded k = (h.superseded k ||
      (db'.sessions.get k).any fun row => decide (row.revokedReason = some .superseded)) := fun k => by
    show (h'.superseded k || _) = _
    rw [ht.superseded_eq]
  -- What the history says of another sign-in's sessions is what it said.
  have hused_eq : ∀ k, h'.root k ≠ ρ → (h'.observe db').used k = h.used k := fun k hk => by
    rw [hused, ht.elsewhere k hk]
    cases hrow : db.sessions.get k with
    | none => simp
    | some row => simp [hl.used k row hrow]
  refine ⟨hbound, fun k hk => ?_, fun k => ?_, hchild, fun k row' next hrow' hnext => ?_,
    fun k row' hrow' => ?_, fun k row' hrow' => ?_, fun k row' hrow' hreason => ?_,
    fun k row' hrow' hrevoked => ?_, fun x y rowx rowy hx hy hroot => ?_,
    fun k parent hparent => ?_, fun k row' next hrow' hreason hnext => ?_, fun σ => ?_,
    fun k row' next row'' hrow' hreason hnext hrow'' hrevoked hunused => ?_⟩
  case refine_1 =>
    obtain ⟨hfrom, hu, hs⟩ := hl.fresh k (Nat.le_trans ht.nextSession hk)
    have hnone : db'.sessions.get k = none := by
      by_contra hsome
      obtain ⟨row', hrow'⟩ := Option.ne_none_iff_exists'.mp hsome
      exact absurd (hbound k row' hrow') (Nat.not_lt.mpr hk)
    refine ⟨?_, by simp [hused, hu, hnone], by simp [hsuperseded, hs, hnone]⟩
    show h'.rotatedFrom k = none
    rw [ht.rotatedFrom k (Or.inr hk), hfrom]
  case refine_2 =>
    show h'.root k ≤ k
    rcases Nat.lt_or_ge k db.nextSession with hlt | hge
    · exact ht.root k (Or.inl hlt) ▸ hl.root_le k
    · rcases Nat.lt_or_ge k db'.nextSession with hlt' | hge'
      · obtain ⟨hroot, hle, _⟩ := ht.born k hge hlt'
        exact hroot ▸ hle
      · exact ht.root k (Or.inr hge') ▸ hl.root_le k
  case refine_3 =>
    show next < _ ∧ h'.root next = h'.root k
    by_cases hk : h'.root k = ρ
    · exact hk ▸ ht.next k row' next hk hrow' hnext
    · obtain ⟨hrow, hroot⟩ := hold k row' hk hrow'
      obtain ⟨hlt, hsame⟩ := hl.next k row' next hrow hnext
      refine ⟨Nat.lt_of_lt_of_le hlt ht.nextSession, ?_⟩
      rw [ht.root next (Or.inl hlt), hsame, hroot]
  case refine_4 =>
    by_cases hk : h'.root k = ρ
    · rw [hused, hrow', Option.any_some]
      cases hu : h.used k with
      | false => rfl
      | true => rw [ht.used k row' hk hrow' hu]; rfl
    · obtain ⟨hrow, _⟩ := hold k row' hk hrow'
      rw [hused_eq k hk, hl.used k row' hrow]
  case refine_5 =>
    rw [hsuperseded, hrow', Option.any_some, Bool.or_eq_true, decide_eq_true_eq]
    refine ⟨fun hor => hor.elim (fun hs => ?_) id, Or.inr⟩
    by_cases hk : h'.root k = ρ
    · exact ht.superseded k row' hk hrow' hs
    · exact (hl.superseded k row' (hold k row' hk hrow').1).mp hs
  case refine_6 =>
    by_cases hk : h'.root k = ρ
    · exact ht.supersededUnused k row' hk hrow' hreason
    · exact hl.supersededUnused k row' (hold k row' hk hrow').1 hreason
  case refine_7 =>
    by_cases hk : h'.root k = ρ
    · exact ht.unrevoked k row' hk hrow' hrevoked
    · exact hl.unrevoked k row' (hold k row' hk hrow').1 hrevoked
  case refine_8 =>
    by_cases hk : h'.root x = ρ
    · obtain ⟨d, hd⟩ := ht.sameDevice
      rw [hd x rowx hk hx, hd y rowy (hroot.symm.trans hk) hy]
    · obtain ⟨hx', hrootx⟩ := hold x rowx hk hx
      obtain ⟨hy', hrooty⟩ := hold y rowy (fun hky => hk (hroot.trans hky)) hy
      exact hl.sameDevice x y rowx rowy hx' hy' (hrootx.symm.trans (hroot.trans hrooty))
  case refine_9 =>
    obtain ⟨hbelow, hroot⟩ := hchild k parent hparent
    by_cases hk : h'.root parent = ρ
    · exact ht.childless k parent hk hparent
    · have hlt : k < db.nextSession := by
        by_contra hge
        rcases Nat.lt_or_ge k db'.nextSession with hlt' | hge'
        · exact hk (hroot.symm.trans (ht.born k (Nat.not_lt.mp hge) hlt').1)
        · have hfrom : h'.rotatedFrom k = some parent := hparent
          rw [ht.rotatedFrom k (Or.inr hge'), (hl.fresh k (Nat.not_lt.mp hge)).1] at hfrom
          cases hfrom
      rw [ht.live_eq hk]
      exact hl.childless k parent (ht.rotatedFrom k (Or.inl hlt) ▸ hparent)
  case refine_10 =>
    show h'.rotatedFrom next = some k
    by_cases hk : h'.root k = ρ
    · exact ht.rotated k row' next hk hrow' hreason hnext
    · obtain ⟨hrow, _⟩ := hold k row' hk hrow'
      rw [ht.rotatedFrom next (Or.inl (hl.next k row' next hrow hnext).1)]
      exact hl.rotated k row' next hrow hreason hnext
  case refine_11 =>
    by_cases hσ : σ = ρ
    · exact hσ ▸ ht.shape
    · exact ht.shape_elsewhere hl hσ
  case refine_12 =>
    show siblings db' h'.root (h'.root k) = Auth.newest (children db' h'.rotatedFrom k) ∧ _
    by_cases hk : h'.root k = ρ
    · exact hk ▸ ht.newest k row' next row'' hk hrow' hreason hnext hrow'' hrevoked hunused
    · obtain ⟨hrow, hroot⟩ := hold k row' hk hrow'
      obtain ⟨hlt, hsame⟩ := hl.next k row' next hrow hnext
      have hnextroot : h'.root next ≠ ρ := by
        rw [ht.root next (Or.inl hlt), hsame, ← hroot]
        exact hk
      obtain ⟨hnewest, hlast, hnone⟩ := hl.newest k row' next row'' hrow hreason hnext
        (hold next row'' hnextroot hrow'').1 hrevoked hunused
      -- The token has no new sessions: they are of the other sign-in.
      have hfrom : ∀ c, h'.rotatedFrom c = some k → c < db.nextSession ∧
          h.rotatedFrom c = some k := by
        intro c hc
        rcases Nat.lt_or_ge c db.nextSession with hlt | hge
        · exact ⟨hlt, ht.rotatedFrom c (Or.inl hlt) ▸ hc⟩
        · rcases Nat.lt_or_ge c db'.nextSession with hlt' | hge'
          · exact absurd ((ht.born c hge hlt').2.2 k hc).2 hk
          · rw [ht.rotatedFrom c (Or.inr hge'), (hl.fresh c hge).1] at hc
            cases hc
      have hchildren : children db' h'.rotatedFrom k = children db h.rotatedFrom k := by
        refine eq_of_ascending (List.pairwise_lt_range.filter _) (List.pairwise_lt_range.filter _)
          fun c => ?_
        rw [mem_children, mem_children]
        constructor
        · rintro ⟨_, hc⟩
          exact hfrom c hc
        · rintro ⟨hlt, hc⟩
          exact ⟨Nat.lt_of_lt_of_le hlt ht.nextSession, ht.rotatedFrom c (Or.inl hlt) ▸ hc⟩
      refine ⟨?_, hchildren ▸ hlast, fun c hc => ?_⟩
      · rw [ht.siblings_eq hl hk, hroot, hnewest, ← hchildren]
      · have hroot' := (hchild c k hc).2
        rw [hused_eq c (hroot' ▸ hk)]
        exact hnone c (hfrom c hc).2

/-- What a write adds to the sign-in `ρ`: the part of a turnover that the history records. -/
structure Births (db db' : Db) (h h' : History) (ρ : SessionId) : Prop where
  nextSession : db.nextSession ≤ db'.nextSession
  root : ∀ k, k < db.nextSession ∨ db'.nextSession ≤ k → h'.root k = h.root k
  rotatedFrom : ∀ k, k < db.nextSession ∨ db'.nextSession ≤ k → h'.rotatedFrom k = h.rotatedFrom k
  used_eq : h'.used = h.used
  superseded_eq : h'.superseded = h.superseded
  born : ∀ k, db.nextSession ≤ k → k < db'.nextSession → h'.root k = ρ ∧ ρ ≤ k ∧
    ∀ parent, h'.rotatedFrom k = some parent → parent < k ∧ h'.root parent = ρ

/-- What a turnover asks of one row of the sign-in `ρ`. -/
structure Turned (db' : Db) (h h' : History) (ρ : SessionId) (device : Option DeviceId)
    (k : SessionId) (row' : AuthSession) : Prop where
  bound : k < db'.nextSession
  next : ∀ next, row'.replacedBySessionId = some next → next < db'.nextSession ∧ h'.root next = ρ
  used : h.used k = true → row'.firstUsedAt.isSome = true
  superseded : h.superseded k = true → row'.revokedReason = some .superseded
  supersededUnused : row'.revokedReason = some .superseded → row'.firstUsedAt = none
  unrevoked : row'.revokedAt = none → row'.revokedReason = none
  sameDevice : row'.deviceId = device
  rotated : ∀ next, row'.revokedReason = some .rotated → row'.replacedBySessionId = some next →
    h'.rotatedFrom next = some k

/-- A write that adds no session. -/
theorem Births.of_nextSession_eq (hnext : db'.nextSession = db.nextSession) : Births db db' h h ρ where
  nextSession := Nat.le_of_eq hnext.symm
  root := fun _ _ => rfl
  rotatedFrom := fun _ _ => rfl
  used_eq := rfl
  superseded_eq := rfl
  born := fun _ hk hk' => absurd hk (Nat.not_le.mpr (hnext ▸ hk'))

/-- A row of the sign-in that the write leaves alone. -/
theorem Turned.same (hl : Lineages db h) (hb : Births db db' h h' (h.root x))
    {row rowx : AuthSession} (hrow : db.sessions.get y = some row)
    (hrowx : db.sessions.get x = some rowx) (hroot : h'.root y = h.root x) :
    Turned db' h h' (h.root x) rowx.deviceId y row := by
  have hlt : y < db.nextSession := hl.bound y row hrow
  have hsame : h.root y = h.root x := (hb.root y (Or.inl hlt)).symm.trans hroot
  have hnext : ∀ next, row.replacedBySessionId = some next → next < db.nextSession ∧
      h'.root next = h.root x ∧ h'.rotatedFrom next = h.rotatedFrom next := by
    intro next hnext
    obtain ⟨hlt', hroot'⟩ := hl.next y row next hrow hnext
    exact ⟨hlt', (hb.root next (Or.inl hlt')).trans (hroot'.trans hsame),
      hb.rotatedFrom next (Or.inl hlt')⟩
  exact {
    bound := Nat.lt_of_lt_of_le hlt hb.nextSession
    next := fun next h => ⟨Nat.lt_of_lt_of_le (hnext next h).1 hb.nextSession, (hnext next h).2.1⟩
    used := fun hused => (hl.used y row hrow).symm.trans hused
    superseded := (hl.superseded y row hrow).mp
    supersededUnused := hl.supersededUnused y row hrow
    unrevoked := hl.unrevoked y row hrow
    sameDevice := hl.sameDevice y x row rowx hrow hrowx hsame
    rotated := fun next hreason h =>
      (hnext next h).2.2.trans (hl.rotated y row next hrow hreason h) }

/-- A turnover, from what it adds and from what it asks of each row. -/
theorem Births.turnover (hb : Births db db' h h' ρ) (device : Option DeviceId)
    (elsewhere : ∀ k, h'.root k ≠ ρ → db'.sessions.get k = db.sessions.get k)
    (rows : ∀ k row', h'.root k = ρ → db'.sessions.get k = some row' →
      Turned db' h h' ρ device k row')
    (childless : ∀ k parent, h'.root parent = ρ → h'.rotatedFrom k = some parent →
      db'.live parent = false)
    (shape : Shape db' (siblings db' h'.root ρ))
    (newest : ∀ k row' next row'', h'.root k = ρ → db'.sessions.get k = some row' →
      row'.revokedReason = some .rotated → row'.replacedBySessionId = some next →
      db'.sessions.get next = some row'' → row''.revokedAt = none → row''.firstUsedAt = none →
      siblings db' h'.root ρ = Auth.newest (children db' h'.rotatedFrom k) ∧
        (children db' h'.rotatedFrom k).getLast? = some next ∧
        ∀ child, h'.rotatedFrom child = some k → (h'.observe db').used child = false) :
    Turnover db db' h h' ρ where
  nextSession := hb.nextSession
  root := hb.root
  rotatedFrom := hb.rotatedFrom
  used_eq := hb.used_eq
  superseded_eq := hb.superseded_eq
  born := hb.born
  elsewhere := elsewhere
  bound := fun k row' hk hrow' => (rows k row' hk hrow').bound
  next := fun k row' next hk hrow' => (rows k row' hk hrow').next next
  used := fun k row' hk hrow' => (rows k row' hk hrow').used
  superseded := fun k row' hk hrow' => (rows k row' hk hrow').superseded
  supersededUnused := fun k row' hk hrow' => (rows k row' hk hrow').supersededUnused
  unrevoked := fun k row' hk hrow' => (rows k row' hk hrow').unrevoked
  sameDevice := ⟨device, fun k row' hk hrow' => (rows k row' hk hrow').sameDevice⟩
  childless := childless
  rotated := fun k row' next hk hrow' => (rows k row' hk hrow').rotated next
  shape := shape
  newest := newest

/-! ### The linked sessions -/

/-- `_linked_ids` finds the session, the one it points at and what the rivals lead to from
there. -/
theorem mem_linkedIds {row : AuthSession} (hrow : db.sessions.get id = some row) :
    x ∈ db.linkedIds id ↔ x = id ∨ ∃ next, db.pointee row = some next ∧ Leads db.rival next x := by
  have hkeys : ∀ k, (db.sessions.get k).isSome = true → k ∈ db.sessions.keys := fun k hk =>
    (db.sessions.mem_keys_iff k).mpr hk
  have hpointee : ∀ row next, db.pointee row = some next → next ∈ db.sessions.keys :=
    fun row next hnext => hkeys next (Option.filter_eq_some_iff.mp hnext).2
  have hclosed : ∀ k ∈ db.sessions.keys, ∀ next, db.rival k = some next →
      next ∈ db.sessions.keys := fun k _ next hnext => by
    obtain ⟨rowk, _, hif⟩ := Option.bind_eq_some_iff.mp hnext
    split at hif
    · exact hpointee rowk next hif
    · cases hif
  unfold Db.linkedIds
  rw [hrow]
  dsimp only
  cases hnext : db.pointee row with
  | none => simp
  | some next =>
    have hfollow := mem_follow (b := x) db.sessions.keys.length hclosed (hpointee row next hnext)
      List.nodup_nil (List.nil_subset _) (by simp) (by simp)
    rw [List.mem_insert_iff, hfollow]
    simp

theorem linkedIds_nodup (id : SessionId) : (db.linkedIds id).Nodup := by
  unfold Db.linkedIds
  split
  · exact List.nodup_nil
  · split
    · exact List.nodup_singleton id
    · exact (follow_nodup _ List.nodup_nil).insert

/-- Only sessions that are there are linked. -/
theorem row_of_mem_linkedIds (hx : x ∈ db.linkedIds id) : (db.sessions.get x).isSome = true := by
  cases hrow : db.sessions.get id with
  | none => simp [Db.linkedIds, hrow] at hx
  | some row =>
    rcases (mem_linkedIds hrow).mp hx with rfl | ⟨next, hnext, hleads⟩
    · simp [hrow]
    · induction hleads with
      | refl => exact (Option.filter_eq_some_iff.mp hnext).2
      | tail _ hstep _ =>
        obtain ⟨rowk, _, hif⟩ := Option.bind_eq_some_iff.mp hstep
        split at hif
        · exact (Option.filter_eq_some_iff.mp hif).2
        · cases hif

namespace Lineages

/-- A live session is linked to the live sessions of its lineage. -/
theorem mem_linkedIds_of_live (hl : Lineages db h) (hlive : db.live x = true) :
    y ∈ db.linkedIds x ↔ y ∈ siblings db h.root (h.root x) := by
  obtain ⟨row, hrow, hrevoked⟩ := Db.live_iff.mp hlive
  have hself := hl.mem_siblings_self hlive
  rw [mem_linkedIds hrow]
  cases hnext : db.next x with
  | none =>
    have hnone : row.replacedBySessionId = none := by simpa [Db.next, hrow] using hnext
    rw [hl.eq_of_settled hlive hnext, List.mem_singleton, Db.pointee, hnone]
    simp
  | some next =>
    obtain ⟨⟨_, _, hring⟩, hrival, hlivenext⟩ := hl.ring_of_next hlive hnext
    have hpoints : db.pointee row = some next := by simpa [Db.rival, hrow, hrevoked] using hrival
    rw [hpoints]
    constructor
    · rintro (rfl | ⟨_, hsome, hleads⟩)
      · exact hself
      · obtain rfl := Option.some.inj hsome
        exact (hring.leads_iff (hring.next_mem hself hrival)).mp hleads
    · exact fun hy => Or.inr ⟨next, rfl, (hring.leads_iff (hring.next_mem hself hrival)).mpr hy⟩

/-- A session that is not live is linked to itself, the one it points at, and, if that is live,
the live sessions of the lineage. -/
theorem mem_linkedIds_of_dead (hl : Lineages db h) {row : AuthSession} {next : SessionId}
    (hrow : db.sessions.get x = some row) (hnext : row.replacedBySessionId = some next)
    (hlive : db.live next = true) :
    y ∈ db.linkedIds x ↔ y = x ∨ y ∈ siblings db h.root (h.root x) := by
  obtain ⟨hlt, hroot⟩ := hl.next x row next hrow hnext
  obtain ⟨rown, hrown, hrevoked⟩ := Db.live_iff.mp hlive
  have hpoints : db.pointee row = some next := by simp [Db.pointee, hnext, hrown]
  have hself := hl.mem_siblings_self hlive
  rw [mem_linkedIds hrow, hpoints, ← hroot]
  refine or_congr_right ⟨fun hlinked => ?_, fun hy => ⟨next, rfl, ?_⟩⟩
  · obtain ⟨_, hsome, hleads⟩ := hlinked
    obtain rfl := Option.some.inj hsome
    cases hnn : db.next next with
    | none =>
      have hrival : db.rival next = none := by
        have hnone : rown.replacedBySessionId = none := by simpa [Db.next, hrown] using hnn
        simp [Db.rival, hrown, Db.pointee, hnone]
      rcases Relation.ReflTransGen.cases_head hleads with rfl | ⟨_, hstep, _⟩
      · exact hself
      · rw [hrival] at hstep
        cases hstep
    | some z => exact ((hl.ring_of_next hlive hnn).1.2.2.leads_iff hself).mp hleads
  · cases hnn : db.next next with
    | none =>
      rw [hl.eq_of_settled hlive hnn, List.mem_singleton] at hy
      exact hy ▸ Relation.ReflTransGen.refl
    | some z => exact ((hl.ring_of_next hlive hnn).1.2.2.leads_iff hself).mpr hy

/-- The other live sessions of a live session's lineage are unused. -/
theorem unused_of_rival (hl : Lineages db h) (hlive : db.live x = true)
    (hy : y ∈ siblings db h.root (h.root x)) (hne : y ≠ x) : db.isUsed y = false := by
  cases hnext : db.next x with
  | none =>
    rw [hl.eq_of_settled hlive hnext] at hy
    exact absurd (List.mem_singleton.mp hy) hne
  | some z => exact (hl.ring_of_next hlive hnext).1.2.1 y hy

end Lineages

/-! ### First use -/

/-- The contest of a live session, settled if it has one. -/
def Db.settled (db : Db) (id : SessionId) (row : AuthSession) (now : Time) : Db :=
  if row.replacedBySessionId ≠ none then db.settleContest id now else db

/-- A rival of a used session. -/
def AuthSession.lose (row : AuthSession) (winner : SessionId) (now : Time) : AuthSession :=
  (row.revoke .superseded now).link (some winner)

theorem nextSession_settled (row : AuthSession) :
    (db.settled id row now).nextSession = db.nextSession := by
  unfold Db.settled
  split <;> rfl

/-- **Settling a contest** supersedes the other live sessions of the lineage. -/
theorem get_settled (hl : Lineages db h) {row : AuthSession} (hrow : db.sessions.get x = some row)
    (hrevoked : row.revokedAt = none) (now : Time) (y : SessionId) :
    (db.settled x row now).sessions.get y =
      if y = x then some (row.link none)
      else if y ∈ siblings db h.root (h.root x) then (db.sessions.get y).map (·.lose x now)
      else db.sessions.get y := by
  have hlive : db.live x = true := Db.live_iff.mpr ⟨row, hrow, hrevoked⟩
  unfold Db.settled
  split
  next hnext =>
    rw [Db.settleContest, Db.get_supersede, Db.get_updateSession]
    have hrivals : ∀ z, ((db.linkedIds x).filter (· ≠ x)).contains z = true ↔
        z ∈ siblings db h.root (h.root x) ∧ z ≠ x := fun z => by
      simp [hl.mem_linkedIds_of_live hlive]
    by_cases hy : y = x
    · subst hy
      simp [hrow, Db.supersededRow]
    · rw [if_neg hy]
      by_cases hmem : y ∈ siblings db h.root (h.root x)
      · rw [if_pos hmem]
        obtain ⟨rowy, hrowy, hrevokedy⟩ := Db.live_iff.mp (mem_siblings.mp hmem).2.1
        have hunused : rowy.firstUsedAt = none := by
          simpa [Db.isUsed, hrowy] using hl.unused_of_rival hlive hmem hy
        rw [hrowy, Option.map_some, Option.map_some, Option.map_some, if_neg hy, Db.supersededRow,
          if_pos ⟨(hrivals y).mpr ⟨hmem, hy⟩, hrevokedy, hunused⟩]
        rfl
      · rw [if_neg hmem]
        cases hrowy : db.sessions.get y with
        | none => rfl
        | some rowy =>
          rw [Option.map_some, Option.map_some, if_neg hy, Db.supersededRow,
            if_neg fun hloses => hmem ((hrivals y).mp hloses.1).1]
  next hnext =>
    have hnone : row.replacedBySessionId = none := not_not.mp hnext
    have honly := hl.eq_of_settled hlive (by simp [Db.next, hrow, hnone])
    by_cases hy : y = x
    · subst hy
      rw [if_pos rfl, hrow, AuthSession.link, ← hnone]
    · have hmem : y ∉ siblings db h.root (h.root x) := by simpa [honly] using hy
      rw [if_neg hy, if_neg hmem]

/-- The row of a session after a first use: the winner's, a rival's, or as it was. -/
theorem row_of_use (hl : Lineages db h) {row row' : AuthSession}
    (hrow : db.sessions.get x = some row) (hrevoked : row.revokedAt = none)
    (hrow' : (((db.settled x row now).updateSession x (·.use now)).sessions.get y) = some row') :
    (y = x ∧ row' = (row.link none).use now) ∨
      (y ≠ x ∧ ∃ rowy, db.sessions.get y = some rowy ∧
        ((rowy.revokedAt = none ∧ h.root y = h.root x ∧ rowy.firstUsedAt = none ∧
            row' = rowy.lose x now) ∨
          (row' = rowy ∧ (h.root y = h.root x → rowy.revokedAt ≠ none)))) := by
  have hlive : db.live x = true := Db.live_iff.mpr ⟨row, hrow, hrevoked⟩
  rw [Db.get_updateSession, get_settled hl hrow hrevoked] at hrow'
  by_cases hy : y = x
  · subst hy
    exact Or.inl ⟨rfl, by simpa using hrow'.symm⟩
  · refine Or.inr ⟨hy, ?_⟩
    rw [if_neg hy] at hrow'
    by_cases hmem : y ∈ siblings db h.root (h.root x)
    · rw [if_pos hmem] at hrow'
      obtain ⟨rowy, hrowy, hrevokedy⟩ := Db.live_iff.mp (mem_siblings.mp hmem).2.1
      have hunused : rowy.firstUsedAt = none := by
        simpa [Db.isUsed, hrowy] using hl.unused_of_rival hlive hmem hy
      refine ⟨rowy, hrowy, Or.inl ⟨hrevokedy, (mem_siblings.mp hmem).2.2, hunused, ?_⟩⟩
      simpa [hrowy, hy] using hrow'.symm
    · rw [if_neg hmem] at hrow'
      obtain ⟨rowy, hrowy, rfl⟩ := Option.map_eq_some_iff.mp hrow'
      refine ⟨rowy, hrowy, Or.inr ⟨if_neg hy, fun hroot hnone => hmem ?_⟩⟩
      exact mem_siblings.mpr
        ⟨hl.bound y rowy hrowy, Db.live_iff.mpr ⟨rowy, hrowy, hnone⟩, hroot⟩

/-- **A first use** leaves its session the only live one of its lineage. -/
theorem Lineages.use (hl : Lineages db h) {row : AuthSession} (hrow : db.sessions.get x = some row)
    (hrevoked : row.revokedAt = none) (now : Time) :
    let used := (db.settled x row now).updateSession x (·.use now)
    Lineages used (h.observe used) := by
  intro used
  have hlive : db.live x = true := Db.live_iff.mpr ⟨row, hrow, hrevoked⟩
  have hbound : x < db.nextSession := hl.bound x row hrow
  have hget : ∀ {y row'}, used.sessions.get y = some row' → _ := fun hrow' =>
    row_of_use hl hrow hrevoked hrow'
  have hx : used.sessions.get x = some ((row.link none).use now) := by
    show ((db.settled x row now).updateSession x (·.use now)).sessions.get x = _
    rw [Db.get_updateSession, get_settled hl hrow hrevoked, if_pos rfl]
    simp
  have hn : used.nextSession = db.nextSession := nextSession_settled row
  -- The winner is what is left.
  have hleft : ∀ y row', h.root y = h.root x → used.sessions.get y = some row' →
      row'.revokedAt = none → y = x := by
    intro y row' hroot hrow' hrevoked'
    rcases hget hrow' with ⟨rfl, _⟩ | ⟨_, rowy, _, ⟨_, _, _, rfl⟩ | ⟨rfl, hdead⟩⟩
    · rfl
    · cases hrevoked'
    · exact absurd hrevoked' (hdead hroot)
  have hsiblings : siblings used h.root (h.root x) = [x] := by
    refine eq_of_ascending (siblings_sorted _ _) (List.pairwise_singleton _ _) fun y => ?_
    rw [mem_siblings, List.mem_singleton, hn]
    constructor
    · rintro ⟨_, hlivey, hroot⟩
      obtain ⟨row', hrow', hrevoked'⟩ := Db.live_iff.mp hlivey
      exact hleft y row' hroot hrow' hrevoked'
    · rintro rfl
      exact ⟨hbound, Db.live_iff.mpr ⟨_, hx, hrevoked⟩, rfl⟩
  have hbirths : Births db used h h (h.root x) := .of_nextSession_eq hn
  refine hl.turnover (hbirths.turnover row.deviceId (fun k hk => ?_)
    (fun k row' hk hrow' => ?_) (fun k parent _ hparent => ?_) ?_
    fun k row' next row'' hk hrow' _ hnext hrow'' hrevoked'' hunused => ?_)
  case refine_1 =>
    have hne : k ≠ x := fun heq => hk (heq ▸ rfl)
    have hnot : k ∉ siblings db h.root (h.root x) := fun hmem => hk (mem_siblings.mp hmem).2.2
    show ((db.settled x row now).updateSession x (·.use now)).sessions.get k = _
    rw [Db.get_updateSession, get_settled hl hrow hrevoked, if_neg hne, if_neg hnot]
    simp [hne]
  case refine_2 =>
    rcases hget hrow' with ⟨rfl, rfl⟩ | ⟨_, rowk, hrowk, ⟨_, _, hunused, rfl⟩ | ⟨rfl, _⟩⟩
    · -- The winner: it is live, so its link is cleared and its reason stays empty.
      have hreason : row.revokedReason = none := hl.unrevoked k row hrow hrevoked
      exact {
        bound := hn ▸ hbound
        next := fun next hnext => by cases hnext
        used := fun _ => by
          cases hfirst : row.firstUsedAt <;> simp [AuthSession.use, AuthSession.link, hfirst]
        superseded := (hl.superseded k row hrow).mp
        supersededUnused := fun h => by cases hreason.symm.trans h
        unrevoked := fun _ => hreason
        sameDevice := rfl
        rotated := fun next _ hnext => by cases hnext }
    · -- A rival, which was not used and now points at the winner.
      exact {
        bound := hn ▸ hl.bound k rowk hrowk
        next := fun next hnext => Option.some.inj hnext ▸ ⟨hn ▸ hbound, rfl⟩
        used := fun hused => (hl.used k rowk hrowk).symm.trans hused
        superseded := fun _ => rfl
        supersededUnused := fun _ => hunused
        unrevoked := fun h => by cases h
        sameDevice := hl.sameDevice k x rowk row hrowk hrow hk
        rotated := fun _ h _ => by cases h }
    · exact .same hl hbirths hrowk hrow hk
  case refine_3 =>
    rw [Bool.eq_false_iff]
    intro hlivep
    obtain ⟨row', hrow', hrevoked'⟩ := Db.live_iff.mp hlivep
    have hdead := hl.childless k parent hparent
    rcases hget hrow' with ⟨rfl, _⟩ | ⟨_, rowp, hrowp, ⟨_, _, _, rfl⟩ | ⟨rfl, _⟩⟩
    · rw [hlive] at hdead
      cases hdead
    · cases hrevoked'
    · rw [Db.live_iff.mpr ⟨row', hrowp, hrevoked'⟩] at hdead
      cases hdead
  case refine_4 =>
    rw [hsiblings]
    refine Shape.settled x ?_
    rw [Db.next, hx]
    rfl
  case refine_5 =>
    -- What is live now has been used.
    obtain rfl := hleft next row'' (by
      rcases hget hrow' with ⟨rfl, rfl⟩ | ⟨_, rowk, hrowk, ⟨_, hroot, _, rfl⟩ | ⟨rfl, _⟩⟩
      · cases hnext
      · rw [Option.some.inj hnext]
      · exact (hl.next k row' next hrowk hnext).2.trans hk) hrow'' hrevoked''
    obtain rfl := Option.some.inj (hx.symm.trans hrow'')
    cases hfirst : row.firstUsedAt <;> simp [AuthSession.use, AuthSession.link, hfirst] at hunused

/-! ### New sessions -/

/-- A session that is still to come has no row. -/
theorem Lineages.get_nextSession (hl : Lineages db h) : db.sessions.get db.nextSession = none := by
  by_contra hsome
  obtain ⟨row, hrow⟩ := Option.ne_none_iff_exists'.mp hsome
  exact absurd (hl.bound _ row hrow) (Nat.lt_irrefl _)

/-- **A sign-in** begins a lineage of its own. -/
theorem Lineages.login (hl : Lineages db h) (cfg : Settings) (device : DeviceId) (now : Time) :
    Lineages (db.login cfg device now)
      ((h.login db.nextSession device).observe (db.login cfg device now)) := by
  have hroot : ∀ k, (h.login db.nextSession device).root k =
      if k = db.nextSession then db.nextSession else h.root k := fun k =>
    Function.update_apply ..
  -- The lineage has no other session.
  have honly : ∀ k, (h.login db.nextSession device).root k = db.nextSession →
      k = db.nextSession ∨ db.nextSession < k := by
    intro k hk
    rw [hroot] at hk
    split at hk
    next heq => exact Or.inl heq
    next hne => exact Or.inr (Nat.lt_of_le_of_ne (hk ▸ hl.root_le k) (Ne.symm hne))
  have hget : ∀ k row', (h.login db.nextSession device).root k = db.nextSession →
      (db.login cfg device now).sessions.get k = some row' → k = db.nextSession ∧
        row' = .insert device.userId (some device) (now + cfg.authRefreshTokenTtl) now := by
    intro k row' hk hrow'
    rw [Db.login, Db.get_insertSession] at hrow'
    split at hrow'
    next heq => exact ⟨heq, (Option.some.inj hrow').symm⟩
    next hne =>
      have hbelow := hl.bound k row' hrow'
      rcases honly k hk with heq | hlt
      · exact absurd heq hne
      · exact absurd hbelow (Nat.lt_asymm hlt)
  refine hl.turnover (ρ := db.nextSession) {
    nextSession := Nat.le_succ _
    root := fun k hk => ?_
    rotatedFrom := fun _ _ => rfl
    used_eq := rfl
    superseded_eq := rfl
    born := fun k hk hk' => ?_
    elsewhere := fun k hk => ?_
    bound := fun k row' hk hrow' => (hget k row' hk hrow').1 ▸ Nat.lt_succ_self _
    next := fun k row' next hk hrow' hnext => ?_
    used := fun k row' hk hrow' hused => ?_
    superseded := fun k row' hk hrow' hs => ?_
    supersededUnused := fun k row' hk hrow' _ => (hget k row' hk hrow').2 ▸ rfl
    unrevoked := fun k row' hk hrow' _ => (hget k row' hk hrow').2 ▸ rfl
    sameDevice := ⟨some device, fun k row' hk hrow' => (hget k row' hk hrow').2 ▸ rfl⟩
    childless := fun k parent hk hparent => ?_
    rotated := fun k row' next hk hrow' hreason _ => ?_
    shape := ?_
    newest := fun k row' next row'' hk hrow' hreason _ _ _ _ => ?_ }
  case refine_1 =>
    rw [hroot, if_neg]
    rintro rfl
    rcases hk with hlt | hle
    · exact Nat.lt_irrefl _ hlt
    · exact Nat.lt_irrefl _ (Nat.lt_of_succ_le hle)
  case refine_2 =>
    obtain rfl : k = db.nextSession := Nat.le_antisymm (Nat.le_of_lt_succ hk') hk
    refine ⟨by rw [hroot, if_pos rfl], Nat.le_refl _, fun parent hparent => ?_⟩
    rw [show (h.login db.nextSession device).rotatedFrom = h.rotatedFrom from rfl,
      (hl.fresh _ (Nat.le_refl _)).1] at hparent
    cases hparent
  case refine_3 =>
    rw [Db.login, Db.get_insertSession, if_neg]
    rintro rfl
    exact hk (by rw [hroot, if_pos rfl])
  case refine_4 =>
    rw [(hget k row' hk hrow').2] at hnext
    cases hnext
  case refine_5 =>
    rw [(hget k row' hk hrow').1, (hl.fresh _ (Nat.le_refl _)).2.1] at hused
    cases hused
  case refine_6 =>
    rw [(hget k row' hk hrow').1, (hl.fresh _ (Nat.le_refl _)).2.2] at hs
    cases hs
  case refine_7 =>
    -- A parent comes before its child, so it is not the new session.
    have hbelow : parent < db.nextSession := hl.lt_of_parent (h := h) hparent
    rcases honly parent hk with heq | hgt
    · exact absurd (heq ▸ hbelow) (Nat.lt_irrefl _)
    · exact absurd hbelow (Nat.lt_asymm hgt)
  case refine_8 =>
    rw [(hget k row' hk hrow').2] at hreason
    cases hreason
  case refine_9 =>
    have hnew : (db.login cfg device now).sessions.get db.nextSession =
        some (.insert device.userId (some device) (now + cfg.authRefreshTokenTtl) now) := by
      rw [Db.login, Db.get_insertSession, if_pos rfl]
    have hsiblings : siblings (db.login cfg device now) (h.login db.nextSession device).root
        db.nextSession = [db.nextSession] := by
      refine eq_of_ascending (siblings_sorted _ _) (List.pairwise_singleton _ _) fun k => ?_
      rw [mem_siblings, List.mem_singleton]
      constructor
      · rintro ⟨_, hlive, hk⟩
        obtain ⟨row', hrow', _⟩ := Db.live_iff.mp hlive
        exact (hget k row' hk hrow').1
      · rintro rfl
        exact ⟨Nat.lt_succ_self _, Db.live_iff.mpr ⟨_, hnew, rfl⟩, by rw [hroot, if_pos rfl]⟩
    rw [hsiblings]
    exact Shape.settled _ (by rw [Db.next, hnew]; rfl)
  case refine_10 =>
    rw [(hget k row' hk hrow').2] at hreason
    cases hreason

theorem rotate_root (h : History) (token newId k : SessionId) :
    (h.rotate token newId).root k = if k = newId then h.root token else h.root k :=
  Function.update_apply ..

theorem rotate_rotatedFrom (h : History) (token newId k : SessionId) :
    (h.rotate token newId).rotatedFrom k = if k = newId then some token else h.rotatedFrom k :=
  Function.update_apply ..

/-- A rotation adds one session, of the sign-in of the token. -/
theorem Births.rotate (hl : Lineages db h) (hbound : x < db.nextSession)
    (hnext : db'.nextSession = db.nextSession + 1) :
    Births db db' h (h.rotate x db.nextSession) (h.root x) := by
  have hnew : ∀ k, k < db.nextSession ∨ db'.nextSession ≤ k → k ≠ db.nextSession := by
    rintro k hk rfl
    exact hk.elim (Nat.lt_irrefl _) fun hle => Nat.not_succ_le_self _ (hnext ▸ hle)
  exact {
    nextSession := hnext ▸ Nat.le_succ _
    root := fun k hk => by rw [rotate_root, if_neg (hnew k hk)]
    rotatedFrom := fun k hk => by rw [rotate_rotatedFrom, if_neg (hnew k hk)]
    used_eq := rfl
    superseded_eq := rfl
    born := fun k hk hk' => by
      rw [hnext] at hk'
      obtain rfl : k = db.nextSession := Nat.le_antisymm (Nat.le_of_lt_succ hk') hk
      refine ⟨by rw [rotate_root, if_pos rfl],
        Nat.le_trans (hl.root_le x) (Nat.le_of_lt hbound), fun parent hparent => ?_⟩
      rw [rotate_rotatedFrom, if_pos rfl] at hparent
      obtain rfl := Option.some.inj hparent
      exact ⟨hbound, by rw [rotate_root, if_neg (Nat.ne_of_lt hbound)]⟩ }

/-- The sessions a token was rotated into, once it has been rotated into a new one. -/
theorem children_rotate (h : History) (hnext : db'.nextSession = db.nextSession + 1)
    (token k : SessionId) :
    children db' (h.rotate token db.nextSession).rotatedFrom k =
      if k = token then children db h.rotatedFrom k ++ [db.nextSession]
      else children db h.rotatedFrom k := by
  have hold : (List.range db.nextSession).filter (fun c =>
      decide ((h.rotate token db.nextSession).rotatedFrom c = some k)) =
      children db h.rotatedFrom k := by
    refine List.filter_congr fun c hc => ?_
    rw [rotate_rotatedFrom, if_neg (Nat.ne_of_lt (List.mem_range.mp hc))]
  unfold children at hold ⊢
  rw [hnext, List.range_succ, List.filter_append, hold]
  have hself : (h.rotate token db.nextSession).rotatedFrom db.nextSession = some token := by
    rw [rotate_rotatedFrom, if_pos rfl]
  by_cases hk : k = token
  · simp [hself, hk]
  · simp [hself, hk, Ne.symm hk]

/-- The rotation of a session that was used goes on to a new one. -/
theorem Lineages.succeed (hl : Lineages db h) {row : AuthSession}
    (hrow : db.sessions.get x = some row) (hrevoked : row.revokedAt = none)
    (hused : row.firstUsedAt.isSome = true) (expiresAt now : Time) :
    let db' := (db.insertSession (.insert row.userId row.deviceId expiresAt now)).updateSession x
      (·.replace db.nextSession now)
    Lineages db' ((h.rotate x db.nextSession).observe db') := by
  intro db'
  have hlive : db.live x = true := Db.live_iff.mpr ⟨row, hrow, hrevoked⟩
  have hbound : x < db.nextSession := hl.bound x row hrow
  have honly := (hl.eq_of_used hlive (by rw [hl.used x row hrow, hused])).1
  have hroot := rotate_root h x db.nextSession
  -- The rows after the rotation.
  have hget : ∀ k, db'.sessions.get k =
      if k = db.nextSession then some (.insert row.userId row.deviceId expiresAt now)
      else if k = x then some (row.replace db.nextSession now) else db.sessions.get k := by
    intro k
    rw [Db.get_updateSession, Db.get_insertSession]
    by_cases hk : k = db.nextSession
    · rw [if_pos hk, if_pos hk, Option.map_some, if_neg (hk ▸ Nat.ne_of_gt hbound)]
    · rw [if_neg hk, if_neg hk]
      by_cases hkx : k = x
      · rw [if_pos hkx, hkx, hrow, Option.map_some, if_pos rfl]
      · rw [if_neg hkx]
        cases db.sessions.get k <;> simp [hkx]
  have hcases : ∀ k row', db'.sessions.get k = some row' →
      (k = db.nextSession ∧ row' = .insert row.userId row.deviceId expiresAt now) ∨
      (k = x ∧ row' = row.replace db.nextSession now) ∨
      (k ≠ db.nextSession ∧ k ≠ x ∧ db.sessions.get k = some row') := by
    intro k row' hrow'
    rw [hget] at hrow'
    split at hrow'
    next hk => exact Or.inl ⟨hk, (Option.some.inj hrow').symm⟩
    next hk =>
      split at hrow'
      next hkx => exact Or.inr (Or.inl ⟨hkx, (Option.some.inj hrow').symm⟩)
      next hkx => exact Or.inr (Or.inr ⟨hk, hkx, hrow'⟩)
  -- The new session is the only one of the lineage that is live.
  have hleft : ∀ k row', (h.rotate x db.nextSession).root k = h.root x →
      db'.sessions.get k = some row' → row'.revokedAt = none → k = db.nextSession := by
    intro k row' hk hrow' hrevoked'
    rcases hcases k row' hrow' with ⟨rfl, _⟩ | ⟨rfl, rfl⟩ | ⟨hne, hkx, hrowk⟩
    · rfl
    · cases hrevoked'
    · rw [hroot, if_neg hne] at hk
      exact absurd (hl.eq_of_siblings honly (Db.live_iff.mpr ⟨row', hrowk, hrevoked'⟩) hk) hkx
  have hnew : db'.sessions.get db.nextSession =
      some (.insert row.userId row.deviceId expiresAt now) := by
    rw [hget, if_pos rfl]
  have hsiblings : siblings db' (h.rotate x db.nextSession).root (h.root x) = [db.nextSession] := by
    refine eq_of_ascending (siblings_sorted _ _) (List.pairwise_singleton _ _) fun k => ?_
    rw [mem_siblings, List.mem_singleton]
    constructor
    · rintro ⟨_, hlivek, hk⟩
      obtain ⟨row', hrow', hrevoked'⟩ := Db.live_iff.mp hlivek
      exact hleft k row' hk hrow' hrevoked'
    · rintro rfl
      exact ⟨Nat.lt_succ_self _, Db.live_iff.mpr ⟨_, hnew, rfl⟩, by rw [hroot, if_pos rfl]⟩
  have hbirths : Births db db' h (h.rotate x db.nextSession) (h.root x) := .rotate hl hbound rfl
  refine hl.turnover (hbirths.turnover row.deviceId (fun k hk => ?_)
    (fun k row' hk hrow' => ?_) (fun k parent hk hparent => ?_) ?_
    fun k row' next row'' hk hrow' hreason hnext hrow'' hrevoked'' hunused => ?_)
  case refine_1 =>
    have hne : k ≠ db.nextSession := fun heq => hk (by rw [hroot, if_pos heq])
    have hkx : k ≠ x := fun heq => hk (by rw [hroot, if_neg hne, heq])
    rw [hget, if_neg hne, if_neg hkx]
  case refine_2 =>
    rcases hcases k row' hrow' with ⟨rfl, rfl⟩ | ⟨rfl, rfl⟩ | ⟨_, _, hrowk⟩
    · -- The new session, to which nothing has happened.
      obtain ⟨_, hunused, hkept⟩ := hl.fresh _ (Nat.le_refl db.nextSession)
      exact {
        bound := Nat.lt_succ_self _
        next := fun next hnext => by cases hnext
        used := fun hu => by cases hunused.symm.trans hu
        superseded := fun hs => by cases hkept.symm.trans hs
        supersededUnused := fun h => by cases h
        unrevoked := fun _ => rfl
        sameDevice := rfl
        rotated := fun _ h _ => by cases h }
    · -- The replaced session, which points at the new one.
      exact {
        bound := Nat.lt_succ_of_lt hbound
        next := fun next hnext => by
          obtain rfl := Option.some.inj hnext
          exact ⟨Nat.lt_succ_self _, by rw [hroot, if_pos rfl]⟩
        used := fun _ => by
          cases hfirst : row.firstUsedAt <;>
            simp [AuthSession.replace, AuthSession.use, AuthSession.link, AuthSession.revoke, hfirst]
        superseded := fun hs => by
          rw [hl.superseded k row hrow, hl.unrevoked k row hrow hrevoked] at hs
          cases hs
        supersededUnused := fun h => by cases h
        unrevoked := fun h => by cases h
        sameDevice := rfl
        rotated := fun next _ hnext => by
          obtain rfl := Option.some.inj hnext
          rw [rotate_rotatedFrom, if_pos rfl] }
    · exact .same hl hbirths hrowk hrow hk
  case refine_3 =>
    rw [Bool.eq_false_iff]
    intro hlivep
    obtain ⟨row', hrow', hrevoked'⟩ := Db.live_iff.mp hlivep
    obtain rfl := hleft parent row' hk hrow' hrevoked'
    -- The new session has no children.
    rw [rotate_rotatedFrom] at hparent
    split at hparent
    · exact absurd hbound (Option.some.inj hparent ▸ Nat.lt_irrefl _)
    next => exact absurd (hl.lt_of_parent hparent) (Nat.lt_irrefl _)
  case refine_4 =>
    rw [hsiblings]
    exact Shape.settled _ (by rw [Db.next, hnew]; rfl)
  case refine_5 =>
    -- Only the replaced session points at the new one.
    have hkx : k = x := by
      rcases hcases k row' hrow' with ⟨rfl, rfl⟩ | ⟨rfl, rfl⟩ | ⟨hne, _, hrowk⟩
      · cases hreason
      · rfl
      · obtain ⟨hlt, hsame⟩ := hl.next k row' next hrowk hnext
        rw [hroot, if_neg hne] at hk
        have hnextroot : (h.rotate x db.nextSession).root next = h.root x := by
          rw [hroot, if_neg (Nat.ne_of_lt hlt), hsame, hk]
        have heq := hleft next row'' hnextroot hrow'' hrevoked''
        exact absurd hlt (heq ▸ Nat.lt_irrefl _)
    subst hkx
    have hnone : children db h.rotatedFrom k = [] := by
      refine List.eq_nil_iff_forall_not_mem.mpr fun c hc => ?_
      have hdead := hl.childless c k (mem_children.mp hc).2
      rw [hlive] at hdead
      cases hdead
    have hchildren : children db' (h.rotate k db.nextSession).rotatedFrom k = [db.nextSession] := by
      rw [children_rotate h rfl, if_pos rfl, hnone]
      rfl
    have heq : next = db.nextSession := by
      rw [hget, if_neg (Nat.ne_of_lt hbound), if_pos rfl] at hrow'
      obtain rfl := Option.some.inj hrow'
      exact (Option.some.inj hnext).symm
    rw [hsiblings, hchildren, heq]
    refine ⟨rfl, rfl, fun c hc => ?_⟩
    rw [rotate_rotatedFrom] at hc
    split at hc
    next hcn =>
      show (h.used c || (db'.sessions.get c).any (·.firstUsedAt.isSome)) = false
      rw [hcn, hnew, (hl.fresh _ (Nat.le_refl _)).2.1]
      rfl
    next =>
      have hdead := hl.childless c k hc
      rw [hlive] at hdead
      cases hdead

/-- What an earlier write showed is shown by a later one that kept it. -/
theorem observe_rotate (h : History) (token newId : SessionId)
    (hused : ∀ k row, db.sessions.get k = some row → row.firstUsedAt.isSome = true →
      ∃ row', db'.sessions.get k = some row' ∧ row'.firstUsedAt.isSome = true)
    (hsuperseded : ∀ k row, db.sessions.get k = some row → row.revokedReason = some .superseded →
      ∃ row', db'.sessions.get k = some row' ∧ row'.revokedReason = some .superseded) :
    ((h.observe db).rotate token newId).observe db' = (h.rotate token newId).observe db' := by
  have hu : ∀ k, (db.sessions.get k).any (·.firstUsedAt.isSome) = true →
      (db'.sessions.get k).any (·.firstUsedAt.isSome) = true := by
    intro k hk
    obtain ⟨row, hrow, hfirst⟩ := (Option.any_eq_true _ _).mp hk
    obtain ⟨row', hrow', hfirst'⟩ := hused k row hrow hfirst
    exact (Option.any_eq_true _ _).mpr ⟨row', hrow', hfirst'⟩
  have hs : ∀ k, (db.sessions.get k).any (fun row =>
        decide (row.revokedReason = some .superseded)) = true →
      (db'.sessions.get k).any (fun row => decide (row.revokedReason = some .superseded)) = true := by
    intro k hk
    obtain ⟨row, hrow, hreason⟩ := (Option.any_eq_true _ _).mp hk
    obtain ⟨row', hrow', hreason'⟩ := hsuperseded k row hrow (by simpa using hreason)
    exact (Option.any_eq_true _ _).mpr ⟨row', hrow', by simpa using hreason'⟩
  have hor : ∀ a b c : Bool, (b = true → c = true) → (a || b || c) = (a || c) := by decide
  simp only [History.observe, History.rotate, hor _ _ _ (hu _), hor _ _ _ (hs _)]

/-- What is shown by the same rows is the same. -/
theorem observe_congr (h : History) (hget : ∀ k, db'.sessions.get k = db.sessions.get k) :
    h.observe db' = h.observe db := by
  simp only [History.observe, hget]

/-- The rows after a rotation: what the settled contest has, the replaced row and the new one. -/
theorem get_rotate (hbound : x < db.nextSession) (cfg : Settings) (row : AuthSession) (now : Time)
    (settled : Db) (hsettled : settled = if row.revokedAt = none ∧ row.replacedBySessionId ≠ none
      then db.settleContest x now else db) (hn : settled.nextSession = db.nextSession)
    (k : SessionId) : (db.rotate cfg x row now).1.sessions.get k =
      if k = db.nextSession then
        some (.insert row.userId row.deviceId (now + cfg.authRefreshTokenTtl) now)
      else if k = x then (settled.sessions.get x).map (·.replace db.nextSession now)
      else settled.sessions.get k := by
  unfold Db.rotate
  dsimp only
  rw [← hsettled, Db.get_updateSession, Db.get_insertSession, hn]
  by_cases hk : k = db.nextSession
  · rw [if_pos hk, if_pos hk, Option.map_some, if_neg (hk ▸ Nat.ne_of_gt hbound)]
  · rw [if_neg hk, if_neg hk]
    by_cases hkx : k = x
    · subst hkx
      simp
    · rw [if_neg hkx]
      cases settled.sessions.get k <;> simp [hkx]

theorem nextSession_rotate (cfg : Settings) (row : AuthSession) (now : Time) :
    (db.rotate cfg x row now).1.nextSession = db.nextSession + 1 := by
  unfold Db.rotate
  dsimp only
  rw [Db.nextSession_updateSession, Db.nextSession_insertSession]
  split <;> rfl

/-- **The rotation of a live session** is a first use of it that goes on to a new session. -/
theorem Lineages.rotate (hl : Lineages db h) {row : AuthSession}
    (hrow : db.sessions.get x = some row) (hrevoked : row.revokedAt = none) (cfg : Settings)
    (now : Time) : Lineages (db.rotate cfg x row now).1
      ((h.rotate x db.nextSession).observe (db.rotate cfg x row now).1) := by
  have hbound := hl.bound x row hrow
  have husedl := hl.use hrow hrevoked now
  dsimp only at husedl
  generalize hused : (db.settled x row now).updateSession x (·.use now) = used at husedl
  have hn : used.nextSession = db.nextSession := by
    rw [← hused]
    exact nextSession_settled row
  have hget : ∀ k, used.sessions.get k = ((db.settled x row now).sessions.get k).map fun row =>
      if k = x then row.use now else row := fun k => by
    rw [← hused, Db.get_updateSession]
  have hself : (db.settled x row now).sessions.get x = some (row.link none) := by
    rw [get_settled hl hrow hrevoked, if_pos rfl]
  have hx : used.sessions.get x = some ((row.link none).use now) := by
    rw [hget, hself, Option.map_some, if_pos rfl]
  have hfirst : ((row.link none).use now).firstUsedAt.isSome = true := by
    cases hf : row.firstUsedAt <;> simp [AuthSession.use, AuthSession.link, hf]
  have hsucceed := husedl.succeed hx hrevoked hfirst (now + cfg.authRefreshTokenTtl) now
  dsimp only at hsucceed
  generalize hdb' : (used.insertSession _).updateSession x _ = db' at hsucceed
  have hsettled : db.settled x row now = if row.revokedAt = none ∧ row.replacedBySessionId ≠ none
      then db.settleContest x now else db := by
    simp [Db.settled, hrevoked]
  -- The two differ in the order of the writes only.
  have heq : ∀ k, (db.rotate cfg x row now).1.sessions.get k = db'.sessions.get k := by
    intro k
    rw [get_rotate hbound cfg row now _ hsettled (nextSession_settled row), ← hdb',
      Db.get_updateSession, Db.get_insertSession, hn]
    by_cases hk : k = db.nextSession
    · rw [if_pos hk, if_pos hk, Option.map_some, if_neg (hk ▸ Nat.ne_of_gt hbound)]
      rfl
    · rw [if_neg hk, if_neg hk]
      by_cases hkx : k = x
      · subst hkx
        rw [if_pos rfl, hself, hx, Option.map_some, Option.map_some, if_pos rfl]
        congr 1
        cases hf : row.firstUsedAt <;>
          simp [AuthSession.replace, AuthSession.use, AuthSession.link, AuthSession.revoke, hf]
      · rw [if_neg hkx, hget]
        cases (db.settled x row now).sessions.get k <;> simp [hkx]
  have hnext : (db.rotate cfg x row now).1.nextSession = db'.nextSession := by
    rw [nextSession_rotate, ← hdb', Db.nextSession_updateSession, Db.nextSession_insertSession, hn]
  have hquiet := hsucceed.quiet (Quiet.of_get_eq hnext heq)
  -- A session other than the replaced one has the row its first use left.
  have hother : ∀ k row', k ≠ x → used.sessions.get k = some row' →
      (db.rotate cfg x row now).1.sessions.get k = some row' := by
    intro k row' hkx hrow'
    have hlt : k < db.nextSession := hn ▸ husedl.bound k row' hrow'
    rw [get_rotate hbound cfg row now _ hsettled (nextSession_settled row),
      if_neg (Nat.ne_of_lt hlt), if_neg hkx, ← hrow', hget]
    cases (db.settled x row now).sessions.get k <;> simp [hkx]
  rw [← observe_congr _ heq, hn, observe_rotate] at hquiet
  · exact hquiet
  · intro k row' hrow' hshown
    by_cases hkx : k = x
    · subst hkx
      refine ⟨(row.link none).replace db.nextSession now, ?_, ?_⟩
      · rw [get_rotate hbound cfg row now _ hsettled (nextSession_settled row),
          if_neg (Nat.ne_of_lt hbound), if_pos rfl, hself]
        rfl
      · cases hf : row.firstUsedAt <;>
          simp [AuthSession.replace, AuthSession.use, AuthSession.link, AuthSession.revoke, hf]
    · exact ⟨row', hother k row' hkx hrow', hshown⟩
  · intro k row' hrow' hshown
    by_cases hkx : k = x
    · -- The winner is not superseded.
      subst hkx
      obtain rfl := Option.some.inj (hx.symm.trans hrow')
      have hreason : row.revokedReason = some .superseded := hshown
      rw [hl.unrevoked k row hrow hrevoked] at hreason
      cases hreason
    · exact ⟨row', hother k row' hkx hrow', hshown⟩

end TigerDuck.Auth
