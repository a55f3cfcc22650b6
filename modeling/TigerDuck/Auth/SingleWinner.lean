import TigerDuck.Auth.Locks

/-!
# Rotation has a single winner

Whatever the order of sign-ins, refreshes, first uses, sign-outs, removals and prunes, a sign-in
has at most one live session that was used, which is then its only live one, and never more than
sixteen; and a token whose rotation was used, or whose session lost to a used one, makes no
session any more.
-/

namespace TigerDuck.Auth

open Transition

variable {db : Db} {h : History} {id : SessionId} {now : Time} {cfg : Settings}

/-- A token makes no session once something it was rotated into was used, or its session was
superseded. -/
theorem Refreshed.refused_of_used {db' : Db} {result : Except Detail SessionId}
    (hr : Refreshed cfg db h id now db' result) (hl : Lineages db h)
    (hspent : (∃ child, h.rotatedFrom child = some id ∧ h.used child = true) ∨
      h.superseded id = true) :
    (∃ detail, result = .error detail) ∧ db'.nextSession = db.nextSession := by
  cases hr with
  | refused _ detail hquiet _ _ => exact ⟨⟨detail, rfl⟩, hquiet.nextSession⟩
  | rotated row hrow hrevoked =>
    exfalso
    rcases hspent with ⟨child, hchild, _⟩ | hsuperseded
    · -- A token that has been rotated is not live.
      have hdead := hl.childless child id hchild
      rw [Db.live_iff.mpr ⟨row, hrow, hrevoked⟩] at hdead
      cases hdead
    · have hreason := (hl.superseded id row hrow).mp hsuperseded
      rw [hl.unrevoked id row hrow hrevoked] at hreason
      cases hreason
  | again token successorId successor hretry =>
    exfalso
    rcases hspent with ⟨child, hchild, hused⟩ | hsuperseded
    · -- None of the token's rotations has been used.
      rw [hretry.unused_child hchild] at hused
      cases hused
    · have hreason := (hl.superseded id token hretry.token_row).mp hsuperseded
      rw [hretry.reason] at hreason
      cases hreason

/-- **Refresh rotation has a single winner.** In every state a run reaches: a live session that
was used is the only live one of its lineage; a lineage has at most sixteen live sessions; and
a refresh of a token with a used rotation, or of a superseded session's token, is refused and
makes no session. -/
theorem rotation_has_single_winner {ls : List Label} {s : State}
    (hrun : FreeRun (step cfg) State.initial ls s) :
    (∀ x y, s.db.live x = true → s.db.live y = true → s.history.root x = s.history.root y →
      s.history.used x = true → x = y) ∧
    (∀ ρ, (siblings s.db s.history.root ρ).length ≤ 16) ∧
    (∀ t c active now s' answer, s.txns t = some (.refresh c) →
      act cfg s (.finishRefresh t active now) = some (s', answer) →
      (∃ child, s.history.rotatedFrom child = some c.id ∧ s.history.used child = true) ∨
        s.history.superseded c.id = true →
      (∃ detail, answer = some (.refreshed (.error detail))) ∧
        s'.db.nextSession = s.db.nextSession) := by
  have hl := (Sound.run hrun).lineages
  refine ⟨fun x y hx hy hroot hused => ?_, hl.length_siblings_le, ?_⟩
  · exact (hl.eq_of_siblings (hl.eq_of_used hx hused).1 hy hroot.symm).symm
  · intro t c active now s' answer htxn hact hspent
    have hfinish : s.finishRefresh cfg t c active now = some (s', answer) := by
      simpa only [act, htxn] using hact
    obtain ⟨_, rfl, rfl⟩ := finishRefresh_eq hfinish
    have hr : Refreshed cfg s.db s.history c.id now _ _ := refreshed hl cfg active
    obtain ⟨⟨detail, hdetail⟩, hnext⟩ := hr.refused_of_used hl hspent
    exact ⟨⟨detail, by rw [hdetail]⟩, hnext⟩

/-- A token is rotated twice; the second session is used, which supersedes the first, and the
token is presented once more. -/
def contestLabels : List Label :=
  [.login ⟨1, 1⟩ [] 0,
    .refresh 1 1, .lockMissing 1, .lockNext 1, .finishRefresh 1 true 1,
    .refresh 1 1, .lockMissing 1, .lockNext 1, .lockNext 1, .finishRefresh 1 true 2,
    .request 1 3 false true, .lockMissing 1, .lockNext 1, .lockNext 1, .finishClaim 1 3,
    .refresh 1 1, .lockMissing 1, .lockNext 1, .lockNext 1]

theorem rotation_has_single_winner_of_contest :
    ∃ s, FreeRun (step ⟨1000, 10⟩) State.initial contestLabels s ∧
      s.db.live 2 = false ∧ s.db.live 3 = true ∧
      ∃ s' answer, act ⟨1000, 10⟩ s (.finishRefresh 1 true 4) = some (s', answer) ∧
        s'.db.nextSession = s.db.nextSession := by
  have hrun : FreeRun (step ⟨1000, 10⟩) State.initial contestLabels _ := run_of_exec rfl
  have hrefused := (rotation_has_single_winner hrun).2.2 1 ⟨1, [1, 3], []⟩ true 4 _ _ rfl rfl
    (Or.inl ⟨3, rfl, rfl⟩)
  exact ⟨_, hrun, rfl, rfl, _, _, rfl, hrefused.2⟩

end TigerDuck.Auth
