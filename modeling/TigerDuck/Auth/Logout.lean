import TigerDuck.Auth.Effects

/-!
# Logout

`logout` writes over the session `require_user` read, which it neither locks nor reads again. A
rotation that commits between the two leaves a new session behind that the sign-out does not
reach (`logout_misses_rotation`). The sign-out ends the login exactly in the runs in which the
session has not been rotated when it is written, or nothing of its login is live any more
(`logout_is_final`).
-/

namespace TigerDuck.Auth

open Relational Transition

variable {s s' : State} {t : TxnId} {id x y k : SessionId} {now : Time} {cfg : Settings}
  {answer : Option Answer}

/-! ### Used sessions and their successors -/

/-- A session that was used is the only live one of its lineage until its token is rotated. -/
def Succession (s : State) : Prop :=
  ∀ x y, s.history.used x = true → s.db.live y = true → s.history.root y = s.history.root x →
    y = x ∨ ∃ c, s.history.rotatedFrom c = some x

/-- A rotation recorded stays so. -/
theorem Kept.rotated {owner : Option TxnId} (hk : Kept s s' owner) (hs : Sound s)
    (hchild : ∃ c, s.history.rotatedFrom c = some x) : ∃ c, s'.history.rotatedFrom c = some x := by
  obtain ⟨c, hc⟩ := hchild
  exact ⟨c, (hk.frame.rotatedFrom c (hs.lineages.lt_of_child hc)).trans hc⟩

theorem Succession.act {l : Label} (hsucc : Succession s) (hs : Sound s)
    (hact : act cfg s l = some (s', answer)) : Succession s' := by
  have hk := kept_act hs hact
  have he := effect_act hs hact
  intro x y hused hlive hroot
  rcases he.used_cases hs hused with hbefore | hlivex | hchild
  · have hx := hs.lineages.lt_of_used hbefore
    by_cases hy : y < s.db.nextSession
    · rw [hk.frame.root x hx, hk.frame.root y hy] at hroot
      exact (hsucc x y hbefore (hk.frame.live y hy hlive) hroot).imp_right (hk.rotated hs)
    · obtain ⟨row', hrow', _⟩ := Db.live_iff.mp hlive
      rw [hk.frame.root x hx] at hroot
      rcases he.born hs (Nat.not_lt.mp hy) (hk.lineages.bound y row' hrow') with
        ⟨_, _, _, _, hself, _⟩ | ⟨z, row, hrow, hrevoked, hz, hfrom, _⟩
      · -- A sign-in is of another lineage.
        have hle := hs.lineages.root_le x
        rw [← hroot, hself] at hle
        exact absurd hx (Nat.not_lt.mpr hle)
      · -- The new session follows one that was live: the used one itself, or one of its own.
        have hlivez : s.db.live z = true := Db.live_iff.mpr ⟨row, hrow, hrevoked⟩
        rcases hsucc x z hbefore hlivez (hz.trans hroot) with rfl | hchild
        · rcases hfrom with hfrom | hunused
          · exact Or.inr ⟨y, hfrom⟩
          · rw [hbefore] at hunused
            cases hunused
        · exact Or.inr (hk.rotated hs hchild)
  · exact Or.inl (hk.lineages.eq_of_siblings (hk.lineages.eq_of_used hlivex hused).1 hlive hroot)
  · exact Or.inr hchild

/-! ### The sign-out -/

/-- A session that has been logged out has no live session in its lineage, and no refresh of a
token of the lineage makes one. -/
def SignedOut (cfg : Settings) (s : State) (x : SessionId) : Prop :=
  (∀ y, s.db.live y = true → s.history.root y ≠ s.history.root x) ∧
  ∀ t c active now s' answer, s.txns t = some (.refresh c) →
    s.history.root c.id = s.history.root x →
    act cfg s (.finishRefresh t active now) = some (s', answer) →
    (∃ detail, answer = some (.refreshed (.error detail))) ∧ s'.db.nextSession = s.db.nextSession

/-- Every session whose logout has committed is signed out. -/
def LogoutsFinal (cfg : Settings) (s : State) : Prop :=
  ∀ x, s.history.loggedOut x = true → SignedOut cfg s x

/-- When a logout writes its session, the token of that session has not been rotated since the
logout read it, or nothing of its lineage is live. -/
def LogoutTimely (s : State) : Label → Prop
  | .logout t _ => ∀ x row, s.txns t = some (.logout x) → s.db.sessions.get x = some row →
      (∀ c, s.history.rotatedFrom c ≠ some x) ∨
        ∀ y, s.db.live y = true → s.history.root y ≠ s.history.root x
  | _ => True

/-- What every step keeps: only sessions that were made are logged out. -/
structure Tracked (s : State) : Prop where
  sound : Sound s
  succession : Succession s
  loggedOut : ∀ x, s.history.loggedOut x = true → x < s.db.nextSession

theorem signedOut_iff (hs : Sound s) : SignedOut cfg s x ↔
    ∀ y, s.db.live y = true → s.history.root y ≠ s.history.root x := by
  refine ⟨And.left, fun hend => ⟨hend, fun t c active now s' answer htxn hroot hact => ?_⟩⟩
  have hfinish : s.finishRefresh cfg t c active now = some (s', answer) := by
    simpa only [act, htxn] using hact
  obtain ⟨_, rfl, rfl⟩ := finishRefresh_eq hfinish
  have hr : Refreshed cfg s.db s.history c.id now _ _ := refreshed hs.lineages cfg active
  obtain ⟨⟨detail, hdetail⟩, hn⟩ := hr.refused_of_ended hs.lineages fun y hy => hroot ▸ hend y hy
  exact ⟨⟨detail, by rw [hdetail]⟩, hn⟩

/-- Only a logout adds to those logged out. -/
theorem Effect.loggedOut_cases {l : Label} (he : Effect cfg s s' l) :
    s'.history.loggedOut = s.history.loggedOut ∨
      ∃ t id row now, l = .logout t now ∧ s.txns t = some (.logout id) ∧
        s.db.sessions.get id = some row ∧ s.history.used id = true ∧
        s'.db = s.db.logout id now ∧ s'.history = { s.history with
          loggedOut := Function.update s.history.loggedOut id true } := by
  cases he with
  | «local» _ _ hhistory => exact Or.inl (by rw [hhistory])
  | used _ _ _ _ _ _ _ _ hhistory => exact Or.inl (by rw [hhistory]; rfl)
  | refreshed t c active now _ _ hhistory =>
    refine Or.inl ?_
    rw [hhistory]
    cases (s.db.refresh cfg c.id active now).2 <;> rfl
  | signedIn _ _ _ _ _ hhistory => exact Or.inl (by rw [hhistory]; rfl)
  | loggedOut t id row now htxn hrow hused hdb hhistory =>
    exact Or.inr ⟨t, id, row, now, rfl, htxn, hrow, hused, hdb, hhistory⟩
  | removed _ _ _ _ _ _ hhistory => exact Or.inl (by rw [hhistory])
  | pruned _ _ _ hhistory => exact Or.inl (by rw [hhistory])

theorem Tracked.act {l : Label} (ht : Tracked s) (hact : act cfg s l = some (s', answer)) :
    Tracked s' := by
  have hk := kept_act ht.sound hact
  refine ⟨hk.sound ht.sound, ht.succession.act ht.sound hact, fun x hx => ?_⟩
  refine Nat.lt_of_lt_of_le ?_ hk.frame.nextSession
  rcases (effect_act ht.sound hact).loggedOut_cases with
    heq | ⟨t, id, row, now, _, _, hrow, _, _, hhistory⟩
  · exact ht.loggedOut x (heq ▸ hx)
  · rw [hhistory] at hx
    rcases update_cases hx with ⟨rfl, _⟩ | ⟨_, hx⟩
    · exact ht.sound.lineages.bound x row hrow
    · exact ht.loggedOut x hx

theorem Tracked.initial : Tracked State.initial where
  sound := Sound.initial
  succession := fun _ _ hused => absurd hused Bool.false_ne_true
  loggedOut := fun _ hout => absurd hout Bool.false_ne_true

/-- The session a logout writes is not live any more, and the others of its lineage are as they
were. -/
theorem live_logout {db : Db} : (db.logout id now).live k = true ↔ db.live k = true ∧ k ≠ id := by
  rw [Db.live_iff, Db.live_iff, Db.logout]
  simp only [Db.get_updateSession, Option.map_eq_some_iff]
  constructor
  · rintro ⟨_, ⟨row, hrow, rfl⟩, hrevoked⟩
    by_cases hk : k = id
    · rw [if_pos hk] at hrevoked
      cases hrevoked
    · rw [if_neg hk] at hrevoked
      exact ⟨⟨row, hrow, hrevoked⟩, hk⟩
  · rintro ⟨⟨row, hrow, hrevoked⟩, hk⟩
    exact ⟨row, ⟨row, hrow, if_neg hk⟩, hrevoked⟩

/-- **One step** keeps every logout final exactly if a logout it makes is timely. -/
theorem logoutsFinal_step {l : Label} (ht : Tracked s) (hfinal : LogoutsFinal cfg s)
    (hact : act cfg s l = some (s', answer)) : LogoutsFinal cfg s' ↔ LogoutTimely s l := by
  have hs := ht.sound
  have hk := kept_act hs hact
  have hs' := hk.sound hs
  have he := effect_act hs hact
  -- Logins that were signed out stay so.
  have hstays : ∀ x, s.history.loggedOut x = true → SignedOut cfg s' x := fun x hx =>
    (signedOut_iff hs').mpr
      (he.ended hs hk (ht.loggedOut x hx) ((signedOut_iff hs).mp (hfinal x hx)))
  by_cases hlogout : ∃ t now, l = .logout t now
  · obtain ⟨t, now, rfl⟩ := hlogout
    simp only [act] at hact
    split at hact
    next id htxn =>
      rcases logout_cases hs htxn hact with ⟨hgone, rfl⟩ | ⟨row, hrow, hused, hdb, hhistory⟩
      · -- A logout whose session is gone ends without a write.
        refine iff_of_true (fun x hx => hstays x hx) fun x row hx hrow => ?_
        obtain rfl : id = x := by simpa [htxn] using hx
        rw [hgone] at hrow
        cases hrow
      · have hroot : s'.history.root = s.history.root := by rw [hhistory]
        constructor
        · intro hfinal' x row' hx hrow'
          obtain rfl : id = x := by simpa [htxn] using hx
          refine or_iff_not_imp_left.mpr fun hchild y hy hsame => ?_
          obtain ⟨c, hc⟩ := not_forall_not.mp hchild
          -- A rotated session is not live, so the one that is outlives the logout.
          have hne : y ≠ id := by
            rintro rfl
            rw [hs.lineages.childless c y hc] at hy
            cases hy
          have hout : s'.history.loggedOut id = true := by
            rw [hhistory]
            exact Function.update_self ..
          refine (hfinal' id hout).1 y ?_ (by rwa [hroot])
          rw [hdb, live_logout]
          exact ⟨hy, hne⟩
        · intro htimely x hx
          by_cases heq : x = id
          · subst heq
            refine (signedOut_iff hs').mpr fun y hy hsame => ?_
            rw [hdb, live_logout] at hy
            rw [hroot] at hsame
            rcases htimely x row htxn hrow with hnone | hend
            · -- The used session was the only live one, and is revoked.
              rcases ht.succession x y hused hy.1 hsame with rfl | ⟨c, hc⟩
              · exact hy.2 rfl
              · exact hnone c hc
            · exact hend y hy.1 hsame
          · refine hstays x ?_
            rw [hhistory] at hx
            exact (Function.update_of_ne heq _ _).symm.trans hx
    next => cases hact
  · rcases he.loggedOut_cases with heq | ⟨t, _, _, now, rfl, _⟩
    · refine iff_of_true (fun x hx => hstays x (heq ▸ hx)) ?_
      cases l with
      | logout t now => exact absurd ⟨t, now, rfl⟩ hlogout
      | _ => trivial
    · exact absurd ⟨t, now, rfl⟩ hlogout

end TigerDuck.Auth
