import TigerDuck.Auth.Effects

/-!
# Device removal

`delete_device` lists the live sessions of its device, locks them, revokes those that are still
live when it gets them, and repeats until a pass locks none. A pass that waits for a session
whose rotation is in flight finds it rotated, passes it over, and does not see the session the
rotation made. If that was all it listed the removal ends there, and the new session is live
(`removal_misses_rotation`).

In runs in which no such pass is the last one, a device that has been removed has no live session
until its next sign-in, and in every run the loop makes a bounded number of steps
(`removal_is_final`).
-/

namespace TigerDuck.Auth

open Relational Transition

variable {s s' : State} {t : TxnId} {id x y k : SessionId} {now : Time} {cfg : Settings}
  {answer : Option Answer} {device : DeviceId} {revoked : List SessionId} {pass : Pass}

/-- A live session of the device. -/
def LiveOf (s : State) (device : DeviceId) (y : SessionId) : Prop :=
  ∃ row, s.db.sessions.get y = some row ∧ row.revokedAt = none ∧ row.deviceId = some device

/-- Where the live sessions of a removal's device are: those that were there when the pass began
it revokes, has locked or still has to lock; a newer one is of the lineage of a session that the
pass has locked, has still to lock or has passed over. After the last pass it revokes them all. -/
def Found (s : State) (device : DeviceId) (revoked : List SessionId) : Pass → Prop
  | .between => True
  | .locking since acquired todo skipped => ∀ y, LiveOf s device y →
      (y < since → y ∈ revoked ∨ y ∈ acquired ∨ y ∈ todo) ∧
      (since ≤ y → ∃ j, (j ∈ acquired ∨ j ∈ todo ∨ j ∈ skipped) ∧
        s.history.root j = s.history.root y)
  | .done => ∀ y, LiveOf s device y → y ∈ revoked

/-- The sessions of a pass, each once, were there when it began. -/
structure Listed (s : State) (revoked : List SessionId) (pass : Pass) : Prop where
  nodup : (revoked ++ pass.acquired ++ pass.todo).Nodup
  lt : ∀ y, y ∈ revoked ++ pass.acquired ++ pass.todo → y < s.db.nextSession
  since : ∀ since acquired todo skipped, pass = .locking since acquired todo skipped →
    since ≤ s.db.nextSession ∧ (∀ y ∈ revoked ++ acquired ++ todo, y < since) ∧
      ∀ y ∈ skipped, y < since

/-- The pass that ends a removal's loop has passed over no session that has since been rotated
into one that is live. -/
def PassesSettled (s : State) : Label → Prop
  | .removal t => ∀ device now revoked since skipped,
      s.txns t = some (.removal device now revoked (.locking since [] [] skipped)) →
      ∀ j ∈ skipped, ∀ y, since ≤ y → s.db.live y = true → s.history.root y ≠ s.history.root j
  | _ => True

/-- A device that has been removed, and has had no sign-in since, has no live session. -/
def RemovalsFinal (s : State) : Prop :=
  ∀ device, s.history.removed device = true → ∀ y, ¬ LiveOf s device y

/-! ### The sessions of a pass -/

theorem Listed.frame {owner : Option TxnId} (hlisted : Listed s revoked pass)
    (hf : Frame s s' owner) : Listed s' revoked pass where
  nodup := hlisted.nodup
  lt := fun y hy => Nat.lt_of_lt_of_le (hlisted.lt y hy) hf.nextSession
  since := fun since acquired todo skipped hpass => by
    obtain ⟨hle, hrest⟩ := hlisted.since since acquired todo skipped hpass
    exact ⟨hle.trans hf.nextSession, hrest⟩

/-- The live sessions of a device whose account another transaction holds are those that were
live or follow them. -/
theorem LiveOf.before {l : Label} (hlive : LiveOf s' device y) (hs : Sound s)
    (hact : act cfg s l = some (s', answer)) (haccount : s.accounts device.userId ≠ none) :
    ∃ z, LiveOf s device z ∧
      (y = z ∨ s.db.nextSession ≤ y ∧ s.history.root z = s'.history.root y) := by
  have hk := kept_act hs hact
  have he := effect_act hs hact
  obtain ⟨row', hrow', hrevoked, hdevice⟩ := hlive
  rcases he.live_of_device hs hk hrow' hrevoked hdevice with
    ⟨replaced, now, rfl⟩ | ⟨z, row, hrow, hnone, hrowdevice, hz⟩
  · -- A sign-in on the device waits for its account.
    obtain ⟨_, hlogin, _⟩ := Option.map_eq_some_iff.mp hact
    exact absurd (accounts_of_login hlogin) haccount
  · exact ⟨z, ⟨row, hrow, hnone, hrowdevice⟩, hz⟩

/-- The steps of others leave a removal's sessions where they are. -/
theorem Found.frame {l : Label} (hfound : Found s device revoked pass) (hs : Sound s)
    (hact : act cfg s l = some (s', answer)) (hheld : RemovalHeld s t device revoked pass)
    (hlisted : Listed s revoked pass) (hne : some t ≠ l.owner) : Found s' device revoked pass := by
  have hk := kept_act hs hact
  have haccount : s.accounts device.userId ≠ none := by
    rw [hheld.account]
    exact Option.some_ne_none t
  -- A lineage with a session the removal holds does not grow.
  have hgrown : ∀ y z, LiveOf s' device y → s.db.nextSession ≤ y → LiveOf s device z →
      (z ∈ revoked ∨ z ∈ pass.acquired) → s.history.root z ≠ s'.history.root y := by
    intro y z ⟨row', hrow', _⟩ hge ⟨row, hrow, hrevoked, _⟩ hz heq
    exact hk.frame.born y hge (hk.lineages.bound y row' hrow') z t hne (hheld.held z hz).1
      (Db.live_iff.mpr ⟨row, hrow, hrevoked⟩) heq.symm
  cases pass with
  | between => trivial
  | locking since acquired todo skipped =>
    obtain ⟨hsince, hlt, hskipped⟩ := hlisted.since since acquired todo skipped rfl
    intro y hy
    obtain ⟨z, hz, hyz⟩ := hy.before hs hact haccount
    obtain ⟨hold, hyoung⟩ := hfound z hz
    rcases hyz with rfl | ⟨hge, hroot⟩
    · refine ⟨hold, fun hle => ?_⟩
      obtain ⟨j, hj, hjroot⟩ := hyoung hle
      have hjlt : j < s.db.nextSession := by
        rcases hj with hj | hj | hj
        · exact hlisted.lt j (by simp [Pass.acquired, hj])
        · exact hlisted.lt j (by simp [Pass.todo, hj])
        · exact Nat.lt_of_lt_of_le (hskipped j hj) hsince
      obtain ⟨row, hrow, _⟩ := hz
      exact ⟨j, hj, by
        rw [hk.frame.root j hjlt, hk.frame.root y (hs.lineages.bound y row hrow), hjroot]⟩
    · refine ⟨fun hlt' => absurd (hlt'.trans_le hsince) (Nat.not_lt.mpr hge), fun _ => ?_⟩
      by_cases hzlt : z < since
      · rcases hold hzlt with h | h | h
        · exact absurd hroot (hgrown y z hy hge hz (Or.inl h))
        · exact absurd hroot (hgrown y z hy hge hz (Or.inr h))
        · refine ⟨z, Or.inr (Or.inl h), ?_⟩
          rw [hk.frame.root z (hzlt.trans_le hsince), hroot]
      · obtain ⟨j, hj, hjroot⟩ := hyoung (Nat.not_lt.mp hzlt)
        have hjlt : j < s.db.nextSession := by
          rcases hj with hj | hj | hj
          · exact hlisted.lt j (by simp [Pass.acquired, hj])
          · exact hlisted.lt j (by simp [Pass.todo, hj])
          · exact Nat.lt_of_lt_of_le (hskipped j hj) hsince
        exact ⟨j, hj, by rw [hk.frame.root j hjlt, hjroot, hroot]⟩
  | done =>
    intro y hy
    obtain ⟨z, hz, hyz⟩ := hy.before hs hact haccount
    rcases hyz with rfl | ⟨hge, hroot⟩
    · exact hfound y hz
    · exact absurd hroot (hgrown y z hy hge hz (Or.inl (hfound z hz)))

theorem Db.liveOf_nodup (db : Db) (device : DeviceId) (but : List SessionId) :
    (db.liveOf device but).Nodup := by
  unfold Db.liveOf Db.sorted
  refine (List.perm_insertionSort _ _).nodup_iff.mpr ?_
  exact db.sessions.keys_nodup.sublist (List.filter_sublist.map Prod.fst)

/-- The locked rows of a pass were listed. -/
theorem mem_moved {acquired todo : List SessionId} {j : SessionId}
    (hj : j ∈ acquired ∨ j ∈ id :: todo) : j ∈ acquired ++ [id] ∨ j ∈ todo := by
  rw [List.mem_append, List.mem_singleton]
  rcases hj with h | h
  · exact Or.inl (Or.inl h)
  · exact (List.mem_cons.mp h).imp_left Or.inr

section Step

variable {at_ : Time} {revoked' : List SessionId} {pass' : Pass}

/-- A step of the loop lists no session twice. -/
theorem removal_listed (hs : Sound s) (hlisted : Listed s revoked pass)
    (hstep : s.removal t device at_ revoked pass = some s')
    (htxn' : s'.txns t = some (.removal device at_ revoked' pass')) : Listed s' revoked' pass' := by
  unfold State.removal at hstep
  split at hstep
  next =>
    obtain rfl := Option.some.inj hstep
    rw [State.txns_setTxn] at htxn'
    obtain ⟨_, _, rfl, rfl⟩ := Txn.removal.inj (Option.some.inj htxn')
    have hnodup : revoked.Nodup := by simpa [Pass.acquired, Pass.todo] using hlisted.nodup
    have hlt : ∀ y ∈ revoked ++ [] ++ s.db.liveOf device revoked, y < s.db.nextSession := by
      intro y hy
      rw [List.append_nil] at hy
      rcases List.mem_append.mp hy with hy | hy
      · exact hlisted.lt y (List.mem_append_left _ (List.mem_append_left _ hy))
      · obtain ⟨⟨row, hrow, _⟩, _⟩ := Db.mem_liveOf.mp hy
        exact hs.lineages.bound y row hrow
    refine ⟨?_, hlt, fun since acquired todo skipped hpass => ?_⟩
    · show (revoked ++ [] ++ s.db.liveOf device revoked).Nodup
      rw [List.append_nil, List.nodup_append]
      refine ⟨hnodup, Db.liveOf_nodup _ _ _, fun a ha b hb heq => ?_⟩
      exact (Db.mem_liveOf.mp hb).2 (heq ▸ ha)
    · obtain ⟨rfl, rfl, rfl, rfl⟩ := Pass.locking.inj hpass
      exact ⟨Nat.le_refl _, hlt, nofun⟩
  next since acquired id todo skipped =>
    obtain ⟨hsince, hlt, hskipped⟩ := hlisted.since since acquired (id :: todo) skipped rfl
    have hskip : Listed
        (s.setTxn t (.removal device at_ revoked (.locking since acquired todo (skipped ++ [id]))))
        revoked (.locking since acquired todo (skipped ++ [id])) := by
      have hsub : ∀ y ∈ revoked ++ acquired ++ todo, y ∈ revoked ++ acquired ++ id :: todo :=
        fun y hy => List.mem_append.mpr
          ((List.mem_append.mp hy).imp_right fun h => List.mem_cons_of_mem id h)
      refine ⟨?_, fun y hy => hlisted.lt y (hsub y hy), fun _ _ _ _ hpass => ?_⟩
      · refine hlisted.nodup.sublist ?_
        exact (List.Sublist.refl _).append (List.sublist_cons_self id todo)
      · obtain ⟨rfl, rfl, rfl, rfl⟩ := Pass.locking.inj hpass
        refine ⟨hsince, fun y hy => hlt y (hsub y hy), fun y hy => ?_⟩
        rcases List.mem_append.mp hy with hy | hy
        · exact hskipped y hy
        · exact List.mem_singleton.mp hy ▸ hlt id (by simp)
    split at hstep
    next =>
      obtain rfl := Option.some.inj hstep
      rw [State.txns_setTxn] at htxn'
      obtain ⟨_, _, rfl, rfl⟩ := Txn.removal.inj (Option.some.inj htxn')
      exact hskip
    next =>
      split at hstep
      next => cases hstep
      next =>
        split at hstep
        next =>
          obtain rfl := Option.some.inj hstep
          rw [State.txns_setTxn] at htxn'
          obtain ⟨_, _, rfl, rfl⟩ := Txn.removal.inj (Option.some.inj htxn')
          have hperm : revoked ++ (acquired ++ [id]) ++ todo =
              revoked ++ acquired ++ id :: todo := by simp
          refine ⟨?_, fun y hy => ?_, fun _ _ _ _ hpass => ?_⟩
          · show (revoked ++ (acquired ++ [id]) ++ todo).Nodup
            rw [hperm]
            exact hlisted.nodup
          · change y ∈ revoked ++ (acquired ++ [id]) ++ todo at hy
            rw [hperm] at hy
            exact hlisted.lt y hy
          · obtain ⟨rfl, rfl, rfl, rfl⟩ := Pass.locking.inj hpass
            refine ⟨hsince, fun y hy => ?_, hskipped⟩
            rw [hperm] at hy
            exact hlt y hy
        next =>
          obtain rfl := Option.some.inj hstep
          rw [State.txns_setTxn] at htxn'
          obtain ⟨_, _, rfl, rfl⟩ := Txn.removal.inj (Option.some.inj htxn')
          exact hskip
  next _ id acquired _ =>
    obtain rfl := Option.some.inj hstep
    rw [State.txns_setTxn] at htxn'
    obtain ⟨_, _, rfl, rfl⟩ := Txn.removal.inj (Option.some.inj htxn')
    refine ⟨?_, fun y hy => ?_, nofun⟩
    · simpa [Pass.acquired, Pass.todo] using hlisted.nodup
    · exact hlisted.lt y (by simpa [Pass.acquired, Pass.todo] using hy)
  next =>
    obtain rfl := Option.some.inj hstep
    rw [State.txns_setTxn] at htxn'
    obtain ⟨_, _, rfl, rfl⟩ := Txn.removal.inj (Option.some.inj htxn')
    exact ⟨hlisted.nodup, hlisted.lt, nofun⟩
  next => cases hstep

/-- A step of the loop loses no live session of the device, if the last pass is settled. -/
theorem removal_found (hs : Sound s) (htxn : s.txns t = some (.removal device at_ revoked pass))
    (hfound : Found s device revoked pass) (hok : PassesSettled s (.removal t))
    (hstep : s.removal t device at_ revoked pass = some s')
    (htxn' : s'.txns t = some (.removal device at_ revoked' pass')) :
    Found s' device revoked' pass' := by
  unfold State.removal at hstep
  split at hstep
  next =>
    -- A pass begins: the live sessions of the device are listed.
    obtain rfl := Option.some.inj hstep
    rw [State.txns_setTxn] at htxn'
    obtain ⟨_, _, rfl, rfl⟩ := Txn.removal.inj (Option.some.inj htxn')
    intro y hy
    obtain ⟨row, hrow, hrevoked, hdevice⟩ := hy
    refine ⟨fun _ => ?_, fun hle => ?_⟩
    · by_cases hmem : y ∈ revoked
      · exact Or.inl hmem
      · exact Or.inr (Or.inr (Db.mem_liveOf.mpr ⟨⟨row, hrow, hdevice, hrevoked⟩, hmem⟩))
    · exact absurd (hs.lineages.bound y row hrow) (Nat.not_lt.mpr hle)
  next since acquired id todo skipped =>
    -- A listed session that is passed over is not a live one of the device any more.
    have hskip : ¬ LiveOf s device id → Found
        (s.setTxn t (.removal device at_ revoked (.locking since acquired todo (skipped ++ [id]))))
        device revoked (.locking since acquired todo (skipped ++ [id])) := by
      intro hnot y hy
      obtain ⟨hold, hyoung⟩ := hfound y hy
      refine ⟨fun hle => ?_, fun hle => ?_⟩
      · rcases hold hle with h | h | h
        · exact Or.inl h
        · exact Or.inr (Or.inl h)
        · rcases List.mem_cons.mp h with rfl | h
          · exact absurd hy hnot
          · exact Or.inr (Or.inr h)
      · obtain ⟨j, hj, hroot⟩ := hyoung hle
        refine ⟨j, ?_, hroot⟩
        rcases hj with h | h | h
        · exact Or.inl h
        · rcases List.mem_cons.mp h with rfl | h
          · exact Or.inr (Or.inr (List.mem_append_right _ (List.mem_singleton_self j)))
          · exact Or.inr (Or.inl h)
        · exact Or.inr (Or.inr (List.mem_append_left _ h))
    split at hstep
    next hgone =>
      obtain rfl := Option.some.inj hstep
      rw [State.txns_setTxn] at htxn'
      obtain ⟨_, _, rfl, rfl⟩ := Txn.removal.inj (Option.some.inj htxn')
      refine hskip ?_
      rintro ⟨row, hrow, _⟩
      rw [hgone] at hrow
      cases hrow
    next row hrow =>
      split at hstep
      next => cases hstep
      next =>
        split at hstep
        next =>
          -- The row has gone from those to lock to those locked.
          obtain rfl := Option.some.inj hstep
          rw [State.txns_setTxn] at htxn'
          obtain ⟨_, _, rfl, rfl⟩ := Txn.removal.inj (Option.some.inj htxn')
          intro y hy
          obtain ⟨hold, hyoung⟩ := hfound y hy
          refine ⟨fun hle => (hold hle).imp_right mem_moved, fun hle => ?_⟩
          obtain ⟨j, hj, hroot⟩ := hyoung hle
          refine ⟨j, ?_, hroot⟩
          rw [← or_assoc] at hj ⊢
          exact hj.imp_left mem_moved
        next hother =>
          obtain rfl := Option.some.inj hstep
          rw [State.txns_setTxn] at htxn'
          obtain ⟨_, _, rfl, rfl⟩ := Txn.removal.inj (Option.some.inj htxn')
          refine hskip ?_
          rintro ⟨row', hrow', hmine⟩
          obtain rfl := Option.some.inj (hrow.symm.trans hrow')
          exact hother hmine
  next =>
    obtain rfl := Option.some.inj hstep
    rw [State.txns_setTxn] at htxn'
    obtain ⟨_, _, rfl, rfl⟩ := Txn.removal.inj (Option.some.inj htxn')
    trivial
  next since skipped =>
    -- A pass that locked nothing is the last one.
    obtain rfl := Option.some.inj hstep
    rw [State.txns_setTxn] at htxn'
    obtain ⟨_, _, rfl, rfl⟩ := Txn.removal.inj (Option.some.inj htxn')
    intro y hy
    obtain ⟨hold, hyoung⟩ := hfound y hy
    by_cases hlt : y < since
    · simpa using hold hlt
    · obtain ⟨j, hj, hroot⟩ := hyoung (Nat.not_lt.mp hlt)
      obtain ⟨row, hrow, hrevoked, _⟩ := hy
      have hskipped : j ∈ skipped := by simpa using hj
      exact absurd hroot.symm (hok device at_ revoked since skipped htxn j hskipped y
        (Nat.not_lt.mp hlt) (Db.live_iff.mpr ⟨row, hrow, hrevoked⟩))
  next => cases hstep

end Step

/-! ### Whose a removal is -/

/-- While a removal is under way its transaction goes on with it, commits it or fails. -/
theorem label_of_removal {l : Label} {at_ : Time}
    (htxn : s.txns t = some (.removal device at_ revoked pass)) (howner : l.owner = some t)
    (hact : act cfg s l = some (s', answer)) :
    l = .removal t ∨ l = .commitRemoval t ∨ l = .abort t := by
  cases l with
  | login device replaced now => cases howner
  | prune ids cutoff => cases howner
  | removal t' => exact Or.inl (Option.some.inj howner ▸ rfl)
  | commitRemoval t' => exact Or.inr (Or.inl (Option.some.inj howner ▸ rfl))
  | abort t' => exact Or.inr (Or.inr (Option.some.inj howner ▸ rfl))
  | _ =>
    obtain rfl := Option.some.inj howner
    simp [act, htxn, Txn.contest?] at hact

theorem removal_of_subject {txn : Txn} (h : txn.subject = .removal device) :
    ∃ at_ revoked pass, txn = .removal device at_ revoked pass := by
  cases txn with
  | removal d at_ revoked pass => exact ⟨at_, revoked, pass, by rw [Subject.removal.inj h]⟩
  | refresh _ => cases h
  | lockSelf _ _ => cases h
  | claimContest _ _ => cases h
  | logout _ => cases h

/-- A removal under way after its transaction's step was begun by it or went on. -/
theorem removal_cases {l : Label} {at_ : Time} (hact : act cfg s l = some (s', answer))
    (howner : l.owner = some t) (htxn : s'.txns t = some (.removal device at_ revoked pass)) :
    (revoked = [] ∧ pass = .between) ∨
      (l = .removal t ∧ ∃ d at₀ revoked₀ pass₀, s.txns t = some (.removal d at₀ revoked₀ pass₀) ∧
        s.removal t d at₀ revoked₀ pass₀ = some s') := by
  have hbegun : Begun s t l (.removal device) := begun_of_act hact howner htxn
  generalize hsubject : Subject.removal device = subject at hbegun
  cases hbegun with
  | refresh _ => cases hsubject
  | request _ _ _ => cases hsubject
  | removal _ now _ =>
    obtain ⟨_, hsome⟩ := Option.ite_none_right_eq_some.mp hact
    obtain ⟨s₁, hstep, heq⟩ := Option.map_eq_some_iff.mp hsome
    obtain ⟨rfl, _⟩ := Prod.mk.inj heq
    obtain ⟨_, hsome⟩ := Option.ite_none_right_eq_some.mp hstep
    obtain rfl := Option.some.inj hsome
    change Function.update s.txns t _ t = _ at htxn
    rw [Function.update_self] at htxn
    obtain ⟨_, _, rfl, rfl⟩ := Txn.removal.inj (Option.some.inj htxn)
    exact Or.inl ⟨rfl, rfl⟩
  | before _ txn₀ htxn₀ =>
    obtain ⟨at₀, revoked₀, pass₀, rfl⟩ := removal_of_subject hsubject.symm
    rcases label_of_removal htxn₀ howner hact with rfl | rfl | rfl
    · refine Or.inr ⟨rfl, device, at₀, revoked₀, pass₀, htxn₀, ?_⟩
      simp only [act, htxn₀] at hact
      obtain ⟨s₁, hstep, heq⟩ := Option.map_eq_some_iff.mp hact
      obtain ⟨rfl, _⟩ := Prod.mk.inj heq
      exact hstep
    · -- A commit ends the transaction.
      simp only [act] at hact
      split at hact
      next =>
        obtain ⟨rfl, _⟩ := Prod.mk.inj (Option.some.inj hact)
        rw [State.commitRemoval, State.txns_finish] at htxn
        cases htxn
      next => cases hact
    · obtain ⟨_, hsome⟩ := Option.ite_none_left_eq_some.mp hact
      obtain ⟨rfl, _⟩ := Prod.mk.inj (Option.some.inj hsome)
      rw [State.txns_finish] at htxn
      cases htxn

/-! ### Removals are final -/

/-- Only a removal's commit adds to the devices removed. -/
theorem Effect.removed_cases {l : Label} (he : Effect cfg s s' l)
    (hremoved : s'.history.removed device = true) :
    s.history.removed device = true ∨
      ∃ t now revoked, l = .commitRemoval t ∧
        s.txns t = some (.removal device now revoked .done) ∧
        s'.db = s.db.revokeAll revoked now := by
  cases he with
  | «local» _ _ hhistory => exact Or.inl (hhistory ▸ hremoved)
  | used _ _ _ _ _ _ _ _ hhistory =>
    rw [hhistory] at hremoved
    exact Or.inl hremoved
  | refreshed t c active now _ _ hhistory =>
    refine Or.inl ?_
    rw [hhistory] at hremoved
    revert hremoved
    cases (s.db.refresh cfg c.id active now).2 <;> exact id
  | signedIn d replaced now _ _ hhistory =>
    rw [hhistory] at hremoved
    rcases update_cases hremoved with ⟨_, hfalse⟩ | ⟨_, hbefore⟩
    · cases hfalse
    · exact Or.inl hbefore
  | loggedOut t id row now _ _ _ _ hhistory =>
    rw [hhistory] at hremoved
    exact Or.inl hremoved
  | removed t d now revoked htxn hdb hhistory =>
    rw [hhistory] at hremoved
    rcases update_cases hremoved with ⟨rfl, _⟩ | ⟨_, hbefore⟩
    · exact Or.inr ⟨t, now, revoked, rfl, htxn, hdb⟩
    · exact Or.inl hbefore
  | pruned ids cutoff _ hhistory =>
    rw [hhistory] at hremoved
    exact Or.inl hremoved

/-- After a sign-in on it a device is not removed. -/
theorem removed_of_login {replaced : List DeviceId}
    (hstep : s.login cfg device replaced now = some s') : s'.history.removed device = false := by
  unfold State.login at hstep
  obtain ⟨_, hsome⟩ := Option.ite_none_right_eq_some.mp hstep
  obtain rfl := Option.some.inj hsome
  exact Function.update_self ..

/-- What every step keeps of the removals under way. -/
structure RemovalsListed (s : State) : Prop where
  sound : Sound s
  listed : ∀ t device at_ revoked pass, s.txns t = some (.removal device at_ revoked pass) →
    Listed s revoked pass

theorem RemovalsListed.act {l : Label} (ht : RemovalsListed s)
    (hact : act cfg s l = some (s', answer)) : RemovalsListed s' := by
  have hk := kept_act ht.sound hact
  refine ⟨hk.sound ht.sound, fun t device at_ revoked pass htxn => ?_⟩
  by_cases howner : l.owner = some t
  · rcases removal_cases hact howner htxn with
      ⟨rfl, rfl⟩ | ⟨rfl, d, at₀, revoked₀, pass₀, htxn₀, hstep⟩
    · exact ⟨List.nodup_nil, nofun, nofun⟩
    · obtain ⟨_, _, htxn'⟩ := subject_removal hstep
      obtain ⟨rfl, rfl, _, _⟩ := Txn.removal.inj (Option.some.inj (htxn'.symm.trans htxn))
      exact removal_listed ht.sound (ht.listed t d at₀ revoked₀ pass₀ htxn₀) hstep htxn
  · have hne : some t ≠ l.owner := Ne.symm howner
    rw [hk.frame.txns t hne] at htxn
    exact (ht.listed t device at_ revoked pass htxn).frame hk.frame

/-- What holds of the removals under way and of those that are over. -/
structure RemovalsTracked (s : State) : Prop where
  listed : RemovalsListed s
  found : ∀ t device at_ revoked pass, s.txns t = some (.removal device at_ revoked pass) →
    Found s device revoked pass
  final : RemovalsFinal s

theorem RemovalsTracked.act {l : Label} (ht : RemovalsTracked s) (hok : PassesSettled s l)
    (hact : act cfg s l = some (s', answer)) : RemovalsTracked s' := by
  have hs := ht.listed.sound
  have hk := kept_act hs hact
  have he := effect_act hs hact
  refine ⟨ht.listed.act hact, fun t device at_ revoked pass htxn => ?_,
    fun device hremoved y hy => ?_⟩
  · by_cases howner : l.owner = some t
    · rcases removal_cases hact howner htxn with
        ⟨rfl, rfl⟩ | ⟨rfl, d, at₀, revoked₀, pass₀, htxn₀, hstep⟩
      · trivial
      · obtain ⟨_, _, htxn'⟩ := subject_removal hstep
        obtain ⟨rfl, rfl, _, _⟩ := Txn.removal.inj (Option.some.inj (htxn'.symm.trans htxn))
        exact removal_found hs htxn₀ (ht.found t d at₀ revoked₀ pass₀ htxn₀) hok hstep htxn
    · have hne : some t ≠ l.owner := Ne.symm howner
      rw [hk.frame.txns t hne] at htxn
      exact (ht.found t device at_ revoked pass htxn).frame hs hact (hs.held t _ htxn)
        (ht.listed.listed t device at_ revoked pass htxn) hne
  · obtain ⟨row', hrow', hrevoked, hdevice⟩ := hy
    rcases he.removed_cases hremoved with hbefore | ⟨t, at_, revoked, rfl, htxn, hdb⟩
    · rcases he.live_of_device hs hk hrow' hrevoked hdevice with
        ⟨replaced, now, rfl⟩ | ⟨z, row, hrow, hnone, hrowdevice, _⟩
      · obtain ⟨_, hlogin, heq⟩ := Option.map_eq_some_iff.mp hact
        obtain ⟨rfl, _⟩ := Prod.mk.inj heq
        rw [removed_of_login hlogin] at hremoved
        cases hremoved
      · exact ht.final device hbefore z ⟨row, hrow, hnone, hrowdevice⟩
    · -- The last pass has found every live session of the device, and they are revoked.
      have hfound := ht.found t device at_ revoked .done htxn
      rw [hdb, Db.get_revokeAll] at hrow'
      obtain ⟨row, hrow, rfl⟩ := Option.map_eq_some_iff.mp hrow'
      by_cases hmem : revoked.contains y = true
      · rw [if_pos hmem] at hrevoked
        cases hrevoked
      · rw [if_neg hmem] at hrevoked hdevice
        exact hmem (by simpa using hfound y ⟨row, hrow, hrevoked, hdevice⟩)

theorem RemovalsTracked.initial : RemovalsTracked State.initial where
  listed := ⟨Sound.initial, fun _ device at_ revoked pass htxn =>
    absurd htxn.symm (Option.some_ne_none (Txn.removal device at_ revoked pass))⟩
  found := fun _ device at_ revoked pass htxn =>
    absurd htxn.symm (Option.some_ne_none (Txn.removal device at_ revoked pass))
  final := fun _ hremoved => absurd hremoved Bool.false_ne_true

/-! ### The loop ends -/

/-- What is left of a removal's loop while at most `n` sessions are made. -/
def stepsLeft (n : Nat) (revoked : List SessionId) : Pass → Nat
  | .between => (n - revoked.length) * (n + 2) + n + 2
  | .locking _ _ todo _ => (n - revoked.length) * (n + 2) + todo.length + 1
  | .done => 0

/-- The steps of a removal's loop in a run. -/
def loopSteps (t : TxnId) (ls : List Label) : Nat :=
  ls.countP fun
    | .removal t' => decide (t' = t)
    | _ => false

theorem Listed.length_le (hlisted : Listed s revoked pass) {n : Nat}
    (hn : s.db.nextSession ≤ n) :
    revoked.length + pass.acquired.length + pass.todo.length ≤ n := by
  have hsub : revoked ++ pass.acquired ++ pass.todo ⊆ List.range n := fun y hy =>
    List.mem_range.mpr (Nat.lt_of_lt_of_le (hlisted.lt y hy) hn)
  have hle := (List.subperm_of_subset hlisted.nodup hsub).length_le
  rw [List.length_range, List.length_append, List.length_append] at hle
  exact hle

/-- **A step of the loop** leaves less to do. -/
theorem stepsLeft_lt {n : Nat} {at_ : Time} {revoked' : List SessionId} {pass' : Pass}
    (hlisted : Listed s revoked pass) (hlisted' : Listed s' revoked' pass')
    (hn : s'.db.nextSession ≤ n) (htxn : s'.txns t = some (.removal device at_ revoked' pass'))
    (hstep : s.removal t device at_ revoked pass = some s') :
    stepsLeft n revoked' pass' < stepsLeft n revoked pass := by
  have hlength' := hlisted'.length_le hn
  unfold State.removal at hstep
  split at hstep
  next =>
    obtain rfl := Option.some.inj hstep
    rw [State.txns_setTxn] at htxn
    obtain ⟨_, _, rfl, rfl⟩ := Txn.removal.inj (Option.some.inj htxn)
    simp only [Pass.todo, Pass.acquired] at hlength'
    simp only [stepsLeft]
    omega
  next since acquired id todo skipped =>
    split at hstep
    next =>
      obtain rfl := Option.some.inj hstep
      rw [State.txns_setTxn] at htxn
      obtain ⟨_, _, rfl, rfl⟩ := Txn.removal.inj (Option.some.inj htxn)
      simp only [stepsLeft, List.length_cons]
      omega
    next =>
      split at hstep
      next => cases hstep
      next =>
        split at hstep
        next =>
          obtain rfl := Option.some.inj hstep
          rw [State.txns_setTxn] at htxn
          obtain ⟨_, _, rfl, rfl⟩ := Txn.removal.inj (Option.some.inj htxn)
          simp only [stepsLeft, List.length_cons]
          omega
        next =>
          obtain rfl := Option.some.inj hstep
          rw [State.txns_setTxn] at htxn
          obtain ⟨_, _, rfl, rfl⟩ := Txn.removal.inj (Option.some.inj htxn)
          simp only [stepsLeft, List.length_cons]
          omega
  next _ id acquired _ =>
    -- The sessions the pass has locked are not listed again.
    obtain rfl := Option.some.inj hstep
    rw [State.txns_setTxn] at htxn
    obtain ⟨_, _, rfl, rfl⟩ := Txn.removal.inj (Option.some.inj htxn)
    simp only [Pass.todo, Pass.acquired, List.length_append, List.length_cons, List.length_nil]
      at hlength'
    simp only [stepsLeft, List.length_append, List.length_cons, List.length_nil]
    have hfewer : n - (revoked.length + (acquired.length + 1)) + 1 ≤ n - revoked.length := by omega
    have hmul := Nat.mul_le_mul_right (n + 2) hfewer
    rw [Nat.add_mul] at hmul
    omega
  next =>
    obtain rfl := Option.some.inj hstep
    rw [State.txns_setTxn] at htxn
    obtain ⟨_, _, rfl, rfl⟩ := Txn.removal.inj (Option.some.inj htxn)
    simp only [stepsLeft]
    omega
  next => cases hstep

/-- **The loop ends**: in a run in which a removal neither commits nor fails, its steps are
bounded by what was left of it. -/
theorem loop_ends {n : Nat} {at_ : Time} {ls : List Label} (hrun : FreeRun (step cfg) s ls s')
    (ht : RemovalsListed s) (htxn : s.txns t = some (.removal device at_ revoked pass))
    (hcommit : Label.commitRemoval t ∉ ls) (habort : Label.abort t ∉ ls)
    (hn : s'.db.nextSession ≤ n) :
    RemovalsListed s' ∧ ∃ revoked' pass', s'.txns t = some (.removal device at_ revoked' pass') ∧
      loopSteps t ls + stepsLeft n revoked' pass' ≤ stepsLeft n revoked pass := by
  induction hrun with
  | nil => exact ⟨ht, revoked, pass, htxn, by simp [loopSteps]⟩
  | @snoc ls s₁ l s₂ hrun _ hstep ih =>
    obtain ⟨⟨s₂, answer⟩, hact, rfl⟩ := Option.map_eq_some_iff.mp hstep
    rw [List.mem_append, not_or] at hcommit habort
    have hbefore : RemovalsListed s₁ ∧ s₁.db.nextSession ≤ s₂.db.nextSession := by
      have hlisted : RemovalsListed s₁ := hrun.invariant RemovalsListed ht
        fun u l v hu _ hnext => by
          obtain ⟨⟨v, _⟩, hactv, rfl⟩ := Option.map_eq_some_iff.mp hnext
          exact hu.act hactv
      exact ⟨hlisted, (kept_act hlisted.sound hact).frame.nextSession⟩
    obtain ⟨ht₁, revoked₁, pass₁, htxn₁, hle⟩ :=
      ih hcommit.1 habort.1 (hbefore.2.trans hn)
    have hcount : loopSteps t (ls ++ [l]) = loopSteps t ls + loopSteps t [l] :=
      List.countP_append
    refine ⟨ht₁.act hact, ?_⟩
    by_cases howner : l.owner = some t
    · rcases label_of_removal htxn₁ howner hact with rfl | rfl | rfl
      · have hremoval : s₁.removal t device at_ revoked₁ pass₁ = some s₂ := by
          simp only [act, htxn₁] at hact
          obtain ⟨s₃, hremoval, heq⟩ := Option.map_eq_some_iff.mp hact
          obtain ⟨rfl, _⟩ := Prod.mk.inj heq
          exact hremoval
        obtain ⟨revoked₂, pass₂, htxn₂⟩ := subject_removal hremoval
        have hlisted₁ := ht₁.listed t device at_ revoked₁ pass₁ htxn₁
        have hlt := stepsLeft_lt hlisted₁
          (removal_listed ht₁.sound hlisted₁ hremoval htxn₂) hn htxn₂ hremoval
        have hone : loopSteps t [Label.removal t] = 1 := by simp [loopSteps]
        exact ⟨revoked₂, pass₂, htxn₂, by omega⟩
      · exact absurd (List.mem_singleton_self _) hcommit.2
      · exact absurd (List.mem_singleton_self _) habort.2
    · -- The steps of others leave the removal where it is.
      have hsame := (kept_act ht₁.sound hact).frame.txns t (Ne.symm howner)
      have hzero : loopSteps t [l] = 0 := by
        cases l <;> simp_all [loopSteps, Label.owner]
      exact ⟨revoked₁, pass₁, hsame.trans htxn₁, by omega⟩

/-- What is left of a loop is bounded by the sessions there are. -/
theorem stepsLeft_le (n : Nat) (hlength : revoked.length + pass.todo.length ≤ n) :
    stepsLeft n revoked pass ≤ (n + 1) * (n + 2) := by
  have hmul : (n - revoked.length) * (n + 2) ≤ n * (n + 2) :=
    Nat.mul_le_mul_right _ (Nat.sub_le _ _)
  have hexpand : (n + 1) * (n + 2) = n * (n + 2) + (n + 2) := Nat.succ_mul n (n + 2)
  rw [hexpand]
  cases pass with
  | between => simp only [stepsLeft]; omega
  | locking _ _ todo _ =>
    simp only [Pass.todo] at hlength
    simp only [stepsLeft]
    omega
  | done => exact Nat.zero_le _

/-- A removal whose loop is not over goes on, or waits for a row another transaction holds. -/
theorem removal_goes_on {at_ : Time} (htxn : s.txns t = some (.removal device at_ revoked pass))
    (hpass : pass ≠ .done) : (∃ s', step cfg s (.removal t) = some s') ∨
      ∃ id t', pass.todo.head? = some id ∧ s.rows id = some t' ∧ t' ≠ t := by
  have hremoval : ∀ s', s.removal t device at_ revoked pass = some s' →
      step cfg s (.removal t) = some s' := fun s' h => by simp [step, act, htxn, h]
  cases pass with
  | between => exact Or.inl ⟨_, hremoval _ rfl⟩
  | done => exact absurd rfl hpass
  | locking since acquired todo skipped =>
    cases todo with
    | nil => cases acquired <;> exact Or.inl ⟨_, hremoval _ rfl⟩
    | cons id todo =>
      by_cases hfree : s.available t id = true
      · left
        cases hrow : s.db.sessions.get id with
        | none => exact ⟨_, hremoval _ (by simp [State.removal, hrow]; rfl)⟩
        | some row =>
          by_cases hmine : row.revokedAt = none ∧ row.deviceId = some device
          · exact ⟨_, hremoval _ (by simp [State.removal, hrow, hfree, hmine]; rfl)⟩
          · exact ⟨_, hremoval _ (by simp [State.removal, hrow, hfree, hmine]; rfl)⟩
      · right
        have hheld : ¬ (s.rows id = none ∨ s.rows id = some t) := fun h =>
          hfree (decide_eq_true h)
        obtain ⟨hheld, hother⟩ := not_or.mp hheld
        obtain ⟨t', ht'⟩ := Option.ne_none_iff_exists'.mp hheld
        exact ⟨id, t', rfl, ht', fun heq => hother (heq ▸ ht')⟩

/-- **Device removal is final** in every run whose last passes are settled: a device that has
been removed has no live session until its next sign-in. In every run the loop makes no more
steps than the sessions allow, and is held up only by rows other transactions hold. -/
theorem removal_is_final (cfg : Settings) :
    (∀ ls s, Run (step cfg) PassesSettled State.initial ls s → RemovalsFinal s) ∧
    ∀ ls s, FreeRun (step cfg) State.initial ls s →
      ∀ t device at_ revoked pass, s.txns t = some (.removal device at_ revoked pass) →
      (∀ ls' s', FreeRun (step cfg) s ls' s' → Label.commitRemoval t ∉ ls' →
        Label.abort t ∉ ls' →
        loopSteps t ls' ≤ (s'.db.nextSession + 1) * (s'.db.nextSession + 2)) ∧
      (pass ≠ .done → (∃ s', step cfg s (.removal t) = some s') ∨
        ∃ id t', pass.todo.head? = some id ∧ s.rows id = some t' ∧ t' ≠ t) := by
  refine ⟨fun ls s hrun => ?_, fun ls s hrun t device at_ revoked pass htxn => ⟨?_, ?_⟩⟩
  · have ht : RemovalsTracked s := hrun.invariant RemovalsTracked RemovalsTracked.initial
      fun u l v hu hok hnext => by
        obtain ⟨⟨v, _⟩, hact, rfl⟩ := Option.map_eq_some_iff.mp hnext
        exact hu.act hok hact
    exact ht.final
  · intro ls' s' hrun' hcommit habort
    have ht : RemovalsListed s := hrun.invariant RemovalsListed RemovalsTracked.initial.listed
      fun u l v hu _ hnext => by
        obtain ⟨⟨v, _⟩, hact, rfl⟩ := Option.map_eq_some_iff.mp hnext
        exact hu.act hact
    obtain ⟨_, revoked', pass', _, hle⟩ :=
      loop_ends hrun' ht htxn hcommit habort (Nat.le_refl s'.db.nextSession)
    have hgrows : s.db.nextSession ≤ s'.db.nextSession := by
      have hboth : RemovalsListed s' ∧ s.db.nextSession ≤ s'.db.nextSession :=
        hrun'.invariant (fun u => RemovalsListed u ∧ s.db.nextSession ≤ u.db.nextSession)
          ⟨ht, Nat.le_refl _⟩ fun u l v hu _ hnext => by
            obtain ⟨⟨v, _⟩, hact, rfl⟩ := Option.map_eq_some_iff.mp hnext
            exact ⟨hu.1.act hact, hu.2.trans (kept_act hu.1.sound hact).frame.nextSession⟩
      exact hboth.2
    have hlength := (ht.listed t device at_ revoked pass htxn).length_le hgrows
    have hbound : stepsLeft s'.db.nextSession revoked pass ≤ _ := stepsLeft_le _ (by omega)
    omega
  · exact removal_goes_on htxn

/-- Whether the pass that is about to end the loop has passed over nothing. -/
def passedNone (s : State) : Label → Bool
  | .removal t =>
    match s.txns t with
    | some (.removal _ _ _ (.locking _ [] [] skipped)) => skipped.isEmpty
    | _ => true
  | _ => true

theorem passesSettled_of_none {l : Label} (h : passedNone s l = true) : PassesSettled s l := by
  cases l with
  | removal t =>
    intro device now revoked since skipped htxn j hj
    simp only [passedNone, htxn, List.isEmpty_iff] at h
    rw [h] at hj
    cases hj
  | _ => trivial

/-- A session of a device is revoked with it, although a first use holds its row for a while. -/
theorem removal_is_final_of_one_session :
    ∃ s, s.history.removed ⟨1, 1⟩ = true ∧ RemovalsFinal s := by
  have hrun : Run (step ⟨1000, 10⟩) (fun s l => passedNone s l = true) State.initial
      [.login ⟨1, 1⟩ [] 0, .request 2 1 false true, .startRemoval 1 ⟨1, 1⟩ 1, .removal 1,
        .lockSelf 2 1, .removal 1, .removal 1, .removal 1, .removal 1, .commitRemoval 1] _ :=
    run_of_execWhere rfl
  exact ⟨_, rfl, (removal_is_final ⟨1000, 10⟩).1 _ _
    (hrun.mono fun _ _ => passesSettled_of_none)⟩

/-- A device's only session is being rotated when its removal lists it. The removal waits for the
row, finds it rotated, and ends; the rotation's session is live. -/
theorem removal_misses_rotation :
    ∃ s, FreeRun (step ⟨1000, 10⟩) State.initial
      [.login ⟨1, 1⟩ [] 0, .refresh 2 1, .lockMissing 2, .lockNext 2, .startRemoval 1 ⟨1, 1⟩ 1,
        .removal 1, .finishRefresh 2 true 2, .removal 1, .removal 1, .commitRemoval 1] s ∧
      s.history.removed ⟨1, 1⟩ = true ∧ s.db.live 2 = true ∧ ¬ RemovalsFinal s := by
  refine ⟨_, run_of_exec rfl, rfl, rfl, fun hfinal => ?_⟩
  exact hfinal ⟨1, 1⟩ rfl 2 ⟨_, rfl, rfl, rfl⟩

end TigerDuck.Auth
