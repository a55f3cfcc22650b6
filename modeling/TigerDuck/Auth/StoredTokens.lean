import TigerDuck.Auth.Accounts

/-!
# Stored tokens

A Moodle token is stored for students who have a device: once the last one has signed out, or has
been taken over by another student, the token is gone, in whatever order the sign-ins, sign-outs,
credential updates and deregisters of all students run. A student whose last device the daily
retirement has taken keeps the token until the next sign-out or take-over.

What carries the proof is that a transaction which takes a device from a user, or writes the user's
token, holds the user's account lock when it commits, and has looked at the user's devices under
it. A registration takes no lock, but it only adds a device. The portal locks the accounts of the
devices it finds before it updates them; a device that comes back in between is not locked, so the
runs are those in which none does.

- `TxnInv`, `Inv`: what holds of a transaction, and of every state.
- `Extends`, `Kept`: what a statement, and a step of others, leave to a transaction.
- `token_owned`: who has a stored token.
-/

namespace TigerDuck.Auth.Accounts

open Relational Transition

variable {db db' db₁ : Db} {t t' : TxnId} {k : Txn} {u : UserId} {work : Work} {labels : List Label}
  {H H' : UserId → Prop}

/-! ### What holds of a transaction -/

/-- A device that keeps its user's token. -/
def UserDevice.Covers (d : UserDevice) : Prop := d.isDeleted = false ∨ d.retired = true

/-- The transaction holds the user's account lock, or the user is gone for good. -/
def Held (db : Db) (t : TxnId) (u : UserId) : Prop := db.accountLocks u = some t ∨ u ∈ db.erased

/-- A user whose account `lock_accounts` leaves held. -/
def Known (db : Db) (t : TxnId) (u : UserId) : Prop := (db.accounts.get u).isSome ∨ Held db t u

/-- What holds where a transaction stands, the users of `H` being held. -/
def Work.Sound (db : Db) (t : TxnId) : Work → (UserId → Prop) → Prop
  | .signInFound u _ _ _ known, _ => if known then Known db t u else db.accountLocks u = some t
  | .locking us next, H => (∀ v ∈ us, Known db t v) ∧ next.Sound db t fun v => v ∈ us ∨ H v
  | .storing u _ _ _ known, H => if known then H u else db.accountLocks u = some t
  | .takingOver u _, _ => db.accountLocks u = some t
  | .forgetting us next, H => (∀ v ∈ us, Known db t v) ∧ next.Sound db t H
  | .forget u us next, H => H u ∧ (∀ v ∈ us, Known db t v) ∧ next.Sound db t H
  | .placing u _, _ => db.accountLocks u = some t
  | .signOut u _, H => H u
  | .register u _, _ => Known db t u
  | .bringBack u _ _, H => H u
  | .update u _, H => H u
  | .retiring us, H => ∀ v ∈ us, H v
  | .clearing us, _ => ∀ v ∈ us, db.accountLocks v = some t
  | .erasing u, H => H u
  | _, _ => True

/-- The users whose tokens a transaction has still to look at. -/
def Work.pending : Work → List UserId
  | .takingOver u _ => [u]
  | .forgetting us next => us ++ next.pending
  | .forget u us next => u :: us ++ next.pending
  | .placing u _ => [u]
  | .clearing us => us
  | _ => []

/-- A transaction has taken a device from a user, or written the user's token. -/
def Txn.Touches (k : Txn) (u : UserId) : Prop :=
  (∃ c w, k.devices.get ⟨u, c⟩ = some w ∧ w.all (·.isDeleted) = true) ∨
    (k.credentials.get u).isSome

/-- As a transaction sees it, a user with a token has a device that keeps it. -/
def Txn.Covered (k : Txn) (db : Db) (u : UserId) : Prop :=
  k.credential db u ≠ none → ∃ c d, k.device db ⟨u, c⟩ = some d ∧ d.Covers

/-- A user whose token a transaction has looked at. -/
def Settled (db : Db) (t : TxnId) (k : Txn) (u : UserId) : Prop :=
  db.accountLocks u = some t ∧ k.Covered db u ∨
    u ∈ db.erased ∧ ∀ token, k.credentials.get u ≠ some (some token)

/-- What holds of an open transaction. -/
structure TxnInv (db : Db) (t : TxnId) (k : Txn) : Prop where
  sound : k.work.Sound db t (Held db t)
  stores : ∀ u token, k.credentials.get u = some (some token) → db.accountLocks u = some t
  settled : ∀ u, k.Touches u → u ∈ k.work.pending ∨ Settled db t k u
  account : ∀ u s, k.account = some (u, s) → db.accountLocks u = some t
  erases : ∀ u, k.erases = some u → Held db t u

/-- What holds of every state that can be reached. -/
structure Inv (db : Db) : Prop where
  owned : ∀ u c d, db.devices.get ⟨u, c⟩ = some d → (db.accounts.get u).isSome
  covered : ∀ u, db.credentials.get u ≠ none → ∃ c d, db.devices.get ⟨u, c⟩ = some d ∧ d.Covers
  erased : ∀ u ∈ db.erased, db.accounts.get u = none ∧ db.accountLocks u = none
  fresh : ∀ u, db.nextUser ≤ u →
    db.accounts.get u = none ∧ db.accountLocks u = none ∧ u ∉ db.erased
  txns : ∀ t k, db.txns t = some k → TxnInv db t k

/-- Whom an account lock keeps out. -/
theorem Inv.not_erased (h : Inv db) (hlock : db.accountLocks u = some t) : u ∉ db.erased := by
  intro hmem
  rw [(h.erased u hmem).2] at hlock
  cases hlock

theorem Inv.lock_of_held (h : Inv db) (hheld : Held db t u) (hsome : (db.accounts.get u).isSome) :
    db.accountLocks u = some t := by
  refine hheld.resolve_right fun hmem => ?_
  rw [(h.erased u hmem).1] at hsome
  cases hsome

theorem any_isLive_iff (o : Option UserDevice) :
    o.any (·.isLive) = true ↔ ∃ d, o = some d ∧ d.isDeleted = false := by
  cases o with
  | none => simp
  | some d => simp [UserDevice.isLive]

theorem signedIn_iff (k : Txn) (db : Db) (u : UserId) :
    k.signedIn db u = true ↔ ∃ c d, k.device db ⟨u, c⟩ = some d ∧ d.isDeleted = false := by
  rw [Txn.signedIn, List.any_eq_true]
  constructor
  · rintro ⟨id, _, hid⟩
    obtain ⟨hu, hany⟩ := Bool.and_eq_true_iff.mp hid
    obtain ⟨d, hd, hlive⟩ := (any_isLive_iff _).mp hany
    obtain rfl := of_decide_eq_true hu
    exact ⟨id.clientDeviceId, d, hd, hlive⟩
  · rintro ⟨c, d, hd, hlive⟩
    refine ⟨⟨u, c⟩, ?_, ?_⟩
    · rw [List.mem_append, Table.mem_keys_iff, Table.mem_keys_iff]
      rw [Txn.device] at hd
      cases hk : k.devices.get ⟨u, c⟩ with
      | none =>
        rw [hk] at hd
        exact Or.inl (Option.isSome_iff_exists.mpr ⟨d, hd⟩)
      | some w => exact Or.inr rfl
    · rw [decide_eq_true rfl, Bool.true_and]
      exact (any_isLive_iff _).mpr ⟨d, hd, hlive⟩

/-! ### What others leave to a transaction -/

/-- What a step leaves to a transaction. -/
structure Kept (t : TxnId) (db db' : Db) : Prop where
  locks : ∀ u, db.accountLocks u = some t → db'.accountLocks u = some t
  accounts : ∀ u, (db.accounts.get u).isSome → (db'.accounts.get u).isSome ∨ u ∈ db'.erased
  erased : ∀ u ∈ db.erased, u ∈ db'.erased
  credentials : ∀ u, db.accountLocks u = some t → db'.credentials.get u = db.credentials.get u
  devices : ∀ u c d, db.accountLocks u = some t → db.devices.get ⟨u, c⟩ = some d → d.Covers →
    ∃ d', db'.devices.get ⟨u, c⟩ = some d' ∧ d'.Covers

theorem Held.kept (h : Held db t u) (hkept : Kept t db db') : Held db' t u :=
  h.imp (hkept.locks u) (hkept.erased u)

theorem Known.kept (h : Known db t u) (hkept : Kept t db db') : Known db' t u := by
  rcases h with hsome | hheld
  · exact (hkept.accounts u hsome).imp id Or.inr
  · exact Or.inr (hheld.kept hkept)

theorem Work.Sound.kept (hkept : Kept t db db') (h : work.Sound db t H) (hH : ∀ u, H u → H' u) :
    work.Sound db' t H' := by
  induction work generalizing H H' with
  | signInFound u s c token known =>
    cases known with
    | true => exact Known.kept h hkept
    | false => exact hkept.locks u h
  | locking us next ih =>
    exact ⟨fun v hv => (h.1 v hv).kept hkept, ih h.2 fun v hv => hv.imp id (hH v)⟩
  | storing u s c token known =>
    cases known with
    | true => exact hH u h
    | false => exact hkept.locks u h
  | takingOver u c => exact hkept.locks u h
  | forgetting us next ih => exact ⟨fun v hv => (h.1 v hv).kept hkept, ih h.2 hH⟩
  | forget u us next ih => exact ⟨hH u h.1, fun v hv => (h.2.1 v hv).kept hkept, ih h.2.2 hH⟩
  | placing u c => exact hkept.locks u h
  | register u c => exact Known.kept h hkept
  | signOut u c => exact hH u h
  | bringBack u caller handler => exact hH u h
  | update u token => exact hH u h
  | erasing u => exact hH u h
  | retiring us => exact fun v hv => hH v (h v hv)
  | clearing us => exact fun v hv => hkept.locks v (h v hv)
  | _ => trivial

theorem Settled.kept (h : Settled db t k u) (hkept : Kept t db db') : Settled db' t k u := by
  refine h.imp (fun ⟨hlock, hcovered⟩ => ⟨hkept.locks u hlock, fun htoken => ?_⟩)
    (fun ⟨hmem, htoken⟩ => ⟨hkept.erased u hmem, htoken⟩)
  rw [Txn.credential, hkept.credentials u hlock] at htoken
  obtain ⟨c, d, hd, hcovers⟩ := hcovered htoken
  rw [Txn.device] at hd
  cases hk : k.devices.get ⟨u, c⟩ with
  | none =>
    rw [hk] at hd
    obtain ⟨d', hd', hcovers'⟩ := hkept.devices u c d hlock hd hcovers
    exact ⟨c, d', by rw [Txn.device, hk]; exact hd', hcovers'⟩
  | some w =>
    rw [hk] at hd
    exact ⟨c, d, by rw [Txn.device, hk]; exact hd, hcovers⟩

theorem TxnInv.kept (h : TxnInv db t k) (hkept : Kept t db db') : TxnInv db' t k where
  sound := h.sound.kept hkept fun _ hheld => hheld.kept hkept
  stores u token hget := hkept.locks u (h.stores u token hget)
  settled u htouches := (h.settled u htouches).imp id fun hsettled => hsettled.kept hkept
  account u s hget := hkept.locks u (h.account u s hget)
  erases u hget := (h.erases u hget).kept hkept

/-- What a statement does to the rest of the database: it may take locks. -/
structure Extends (db db₁ : Db) : Prop where
  accounts : db₁.accounts = db.accounts
  devices : db₁.devices = db.devices
  credentials : db₁.credentials = db.credentials
  erased : db₁.erased = db.erased
  txns : db₁.txns = db.txns
  nextUser : db.nextUser ≤ db₁.nextUser
  locks : ∀ u t, db.accountLocks u = some t → db₁.accountLocks u = some t
  /-- A lock is taken on an account that is there, or on that of a user just inserted. -/
  taken : ∀ u, db₁.accountLocks u ≠ db.accountLocks u →
    (db.accounts.get u).isSome ∨ db.nextUser ≤ u ∧ u < db₁.nextUser

theorem Extends.refl (db : Db) : Extends db db :=
  ⟨rfl, rfl, rfl, rfl, rfl, le_rfl, fun _ _ h => h, fun _ hne => absurd rfl hne⟩

theorem Extends.kept (h : Extends db db₁) (t : TxnId) : Kept t db db₁ where
  locks u hlock := h.locks u t hlock
  accounts u hsome := Or.inl (by rwa [h.accounts])
  erased u hmem := by rwa [h.erased]
  credentials u _ := by rw [h.credentials]
  devices u c d _ hd hcovers := ⟨d, by rwa [h.devices], hcovers⟩

theorem Kept.setTxn (h : Kept t db db₁) (k : Txn) : Kept t db (db₁.setTxn t' k) :=
  ⟨h.locks, h.accounts, h.erased, h.credentials, h.devices⟩

/-! ### Locks and moves -/

/-- `lock_accounts` leaves its user held. -/
theorem lockAccount_held (hknown : Known db t u) (h : db.lockAccount t u = some db₁) :
    Extends db db₁ ∧ Held db₁ t u := by
  unfold Db.lockAccount at h
  split at h
  next hnone =>
    cases h
    refine ⟨.refl db, hknown.resolve_left fun hsome => ?_⟩
    rw [Option.isNone_iff_eq_none.mp hnone] at hsome
    cases hsome
  next hsome =>
    split at h <;> cases h
    next havailable =>
      refine ⟨⟨rfl, rfl, rfl, rfl, rfl, le_rfl, fun v t' hlock => ?_, fun v hne => ?_⟩, ?_⟩
      · exact RowLocks.lock_of_held hlock havailable
      · refine Or.inl ?_
        by_cases hv : v = u
        · rw [hv]
          exact Option.isSome_iff_ne_none.mpr fun hnone => hsome (by rw [hnone]; rfl)
        · exact absurd (Function.update_of_ne hv ..) hne
      · exact Or.inl RowLocks.lock_self

/-- A statement that writes nothing leaves a transaction well. -/
theorem TxnInv.move (h : TxnInv db t k) (hextends : Extends db db₁)
    (hsound : work.Sound db₁ t (Held db₁ t)) (hpending : ∀ v ∈ k.work.pending, v ∈ work.pending) :
    TxnInv db₁ t { k with work } := by
  have hkept := h.kept (hextends.kept t)
  exact { hkept with
    sound := hsound
    settled := fun v htouches => (hkept.settled v htouches).imp (hpending v) id }

/-- What a transaction has written for one user. -/
structure Same (k k' : Txn) (u : UserId) : Prop where
  devices : ∀ c, k'.devices.get ⟨u, c⟩ = k.devices.get ⟨u, c⟩
  credentials : k'.credentials.get u = k.credentials.get u

theorem TxnInv.settled_same {k' : Txn} (h : TxnInv db t k) (hsame : Same k k' u)
    (hpending : u ∈ k.work.pending → u ∈ k'.work.pending) (htouches : k'.Touches u) :
    u ∈ k'.work.pending ∨ Settled db t k' u := by
  have hbefore : k.Touches u := by
    rcases htouches with ⟨c, w, hget, hw⟩ | hsome
    · exact Or.inl ⟨c, w, (hsame.devices c).symm.trans hget, hw⟩
    · exact Or.inr (by rwa [hsame.credentials] at hsome)
  refine (h.settled u hbefore).imp hpending fun hsettled => ?_
  have hdevice : ∀ c, k'.device db ⟨u, c⟩ = k.device db ⟨u, c⟩ := fun c => by
    rw [Txn.device, Txn.device, hsame.devices]
  have hcredential : k'.credential db u = k.credential db u := by
    rw [Txn.credential, Txn.credential, hsame.credentials]
  refine hsettled.imp (fun ⟨hlock, hcovered⟩ => ⟨hlock, fun htoken => ?_⟩)
    (fun ⟨hmem, hnone⟩ => ⟨hmem, by rwa [hsame.credentials]⟩)
  rw [hcredential] at htoken
  obtain ⟨c, d, hd, hcovers⟩ := hcovered htoken
  exact ⟨c, d, (hdevice c).trans hd, hcovers⟩

theorem Txn.covered_of_signedIn (h : k.signedIn db u = true) : k.Covered db u := fun _ => by
  obtain ⟨c, d, hd, hlive⟩ := (signedIn_iff k db u).mp h
  exact ⟨c, d, hd, Or.inl hlive⟩

/-- A device that is there, or back, keeps its user's token. -/
theorem device_revive (db : Db) (k : Txn) (id : DeviceId) (work : Work) :
    ∃ d, (db.revive k id work).device db id = some d ∧ d.isDeleted = false := by
  unfold Db.revive
  split
  next hlive => exact (any_isLive_iff _).mp hlive
  next =>
    refine ⟨⟨false, false⟩, ?_, rfl⟩
    show ((k.devices.set id _).get id).getD _ = _
    rw [Table.get_set, if_pos rfl]
    rfl

theorem get_revive_of_ne {id id' : DeviceId} (hne : id' ≠ id) :
    (db.revive k id work).devices.get id' = k.devices.get id' := by
  unfold Db.revive
  split
  · rfl
  · exact (Table.get_set ..).trans (if_neg hne)

theorem revive_eq (db : Db) (k : Txn) (id : DeviceId) (work : Work) :
    (db.revive k id work).work = work ∧ (db.revive k id work).credentials = k.credentials ∧
      (db.revive k id work).account = k.account ∧ (db.revive k id work).erases = k.erases := by
  unfold Db.revive
  split <;> exact ⟨rfl, rfl, rfl, rfl⟩

/-- To bring a device back takes nothing from anybody. -/
theorem touches_of_revive {c : ClientDeviceId} {v : UserId}
    (h : (db.revive k ⟨u, c⟩ work).Touches v) : k.Touches v := by
  obtain ⟨_, hcredentials, _, _⟩ := revive_eq db k ⟨u, c⟩ work
  refine h.imp (fun ⟨c', w, hget, hw⟩ => ?_) fun hsome => by rwa [hcredentials] at hsome
  by_cases hid : (⟨v, c'⟩ : DeviceId) = ⟨u, c⟩
  · unfold Db.revive at hget
    split at hget
    · exact ⟨c', w, hget, hw⟩
    · -- The row it has written is not deleted.
      rw [hid] at hget
      have hset : (k.devices.set ⟨u, c⟩ (some ⟨false, false⟩)).get ⟨u, c⟩ = some w := hget
      rw [Table.get_set, if_pos rfl] at hset
      obtain rfl := Option.some.inj hset
      cases hw
  · exact ⟨c', w, (get_revive_of_ne hid).symm.trans hget, hw⟩

theorem TxnInv.revive {c : ClientDeviceId} (h : TxnInv db t k)
    (hsound : work.Sound db t (Held db t))
    (hpending : ∀ v ∈ k.work.pending, v = u ∧ db.accountLocks u = some t) :
    TxnInv db t (db.revive k ⟨u, c⟩ work) := by
  obtain ⟨hwork, hcredentials, haccount, herases⟩ := revive_eq db k ⟨u, c⟩ work
  obtain ⟨d, hd, hlive⟩ := device_revive db k ⟨u, c⟩ work
  have hcovered : (db.revive k ⟨u, c⟩ work).Covered db u := fun _ => ⟨c, d, hd, Or.inl hlive⟩
  refine ⟨by rwa [hwork], fun v token hget => ?_, fun v htouches => ?_, fun v s hget => ?_,
    fun v hget => ?_⟩
  · rw [hcredentials] at hget
    exact h.stores v token hget
  · by_cases hv : v = u
    · subst hv
      refine Or.inr ?_
      rcases h.settled v (touches_of_revive htouches) with hmem | ⟨hlock, _⟩ | ⟨hmem, hnone⟩
      · exact Or.inl ⟨(hpending v hmem).2, hcovered⟩
      · exact Or.inl ⟨hlock, hcovered⟩
      · exact Or.inr ⟨hmem, by rwa [hcredentials]⟩
    · have hsame : Same k (db.revive k ⟨u, c⟩ work) v :=
        ⟨fun c' => get_revive_of_ne fun hid => hv (congrArg DeviceId.userId hid), by rw [hcredentials]⟩
      exact h.settled_same hsame (fun hmem => absurd (hpending v hmem).1 hv) htouches
  · exact h.account v s (haccount.symm.trans hget)
  · exact h.erases v (herases.symm.trans hget)

/-! ### What a transaction writes -/

variable {k' : Txn}

/-- A token is written under the lock of its user, who has a device or is about to get one. -/
theorem TxnInv.store {token : MoodleToken} (h : TxnInv db t k)
    (hlock : db.accountLocks u = some t) (hdevices : k'.devices = k.devices)
    (hcredentials : k'.credentials = k.credentials.set u (some token))
    (hsound : k'.work.Sound db t (Held db t)) (hpending : ∀ v ∈ k.work.pending, v ∈ k'.work.pending)
    (hu : u ∈ k'.work.pending ∨ k'.Covered db u)
    (haccount : ∀ v s, k'.account = some (v, s) → db.accountLocks v = some t)
    (herases : k'.erases = k.erases) : TxnInv db t k' := by
  have hget : ∀ v, k'.credentials.get v =
      if v = u then some (some token) else k.credentials.get v := fun v => by
    rw [hcredentials]
    exact Table.get_set ..
  refine ⟨hsound, fun v token' hsome => ?_, fun v htouches => ?_, haccount, fun v hsome => ?_⟩
  · rw [hget] at hsome
    split at hsome
    next hv => rw [hv, hlock]
    next => exact h.stores v token' hsome
  · by_cases hv : v = u
    · subst hv
      exact hu.imp id fun hcovered => Or.inl ⟨hlock, hcovered⟩
    · have hsame : Same k k' v := ⟨fun c => by rw [hdevices], by rw [hget, if_neg hv]⟩
      exact h.settled_same hsame (hpending v) htouches
  · exact h.erases v (herases.symm.trans hsome)

/-- `forget_credentials_once_signed_out` under the locks of its users. -/
theorem TxnInv.looked (us : List UserId) (h : TxnInv db t k) (hinv : Inv db)
    (hdevices : k'.devices = k.devices)
    (hcredentials : ∀ v, k'.credentials.get v =
      if v ∈ us ∧ k.signedIn db v = false then some none else k.credentials.get v)
    (hheld : ∀ v ∈ us, Held db t v) (hsound : k'.work.Sound db t (Held db t))
    (hpending : ∀ v ∈ k.work.pending, v ∈ us ∨ v ∈ k'.work.pending)
    (haccount : k'.account = k.account) (herases : k'.erases = k.erases) : TxnInv db t k' := by
  have hstores : ∀ v token, k'.credentials.get v = some (some token) →
      k.credentials.get v = some (some token) := by
    intro v token hsome
    rw [hcredentials] at hsome
    split at hsome
    · cases hsome
    · exact hsome
  refine ⟨hsound, fun v token hsome => h.stores v token (hstores v token hsome),
    fun v htouches => ?_, fun v s hsome => h.account v s (haccount.symm.trans hsome),
    fun v hsome => h.erases v (herases.symm.trans hsome)⟩
  by_cases hv : v ∈ us
  · refine Or.inr ((hheld v hv).imp (fun hlock => ⟨hlock, ?_⟩) fun hmem => ⟨hmem, fun token hsome => ?_⟩)
    · cases hsigned : k.signedIn db v with
      | true =>
        intro _
        obtain ⟨c, d, hd, hcovers⟩ := (signedIn_iff k db v).mp hsigned
        exact ⟨c, d, by rw [Txn.device, hdevices]; exact hd, Or.inl hcovers⟩
      | false =>
        -- Nobody is left, and the token goes.
        intro htoken
        rw [Txn.credential, hcredentials, if_pos ⟨hv, hsigned⟩] at htoken
        exact absurd rfl htoken
    · exact hinv.not_erased (h.stores v token (hstores v token hsome)) hmem
  · have hsame : Same k k' v := ⟨fun c => by rw [hdevices], by
      rw [hcredentials, if_neg fun hboth => hv hboth.1]⟩
    exact h.settled_same hsame (fun hmem => (hpending v hmem).resolve_left hv) htouches

/-- Devices are taken from users whose tokens the transaction is about to look at. -/
theorem TxnInv.take (ids : List DeviceId) (w : Option UserDevice) (h : TxnInv db t k)
    (hdevices : ∀ id, k'.devices.get id = if id ∈ ids then some w else k.devices.get id)
    (hcredentials : k'.credentials = k.credentials) (hsound : k'.work.Sound db t (Held db t))
    (hpending : ∀ v ∈ k.work.pending, v ∈ k'.work.pending)
    (hids : ∀ id ∈ ids, id.userId ∈ k'.work.pending)
    (haccount : k'.account = k.account) (herases : k'.erases = k.erases) : TxnInv db t k' := by
  refine ⟨hsound, fun v token hsome => ?_, fun v htouches => ?_,
    fun v s hsome => h.account v s (haccount.symm.trans hsome),
    fun v hsome => h.erases v (herases.symm.trans hsome)⟩
  · rw [hcredentials] at hsome
    exact h.stores v token hsome
  · by_cases hv : ∃ c, (⟨v, c⟩ : DeviceId) ∈ ids
    · obtain ⟨c, hmem⟩ := hv
      exact Or.inl (hids _ hmem)
    · have hsame : Same k k' v := ⟨fun c => by
        rw [hdevices, if_neg fun hmem => hv ⟨c, hmem⟩], by rw [hcredentials]⟩
      exact h.settled_same hsame (hpending v) htouches

/-- A retired device keeps its user's token. -/
theorem TxnInv.retire {dead : List DeviceId} (h : TxnInv db t k)
    (hdevices : ∀ id, k'.devices.get id =
      if id ∈ dead then some (some ⟨true, true⟩) else k.devices.get id)
    (hcredentials : k'.credentials = k.credentials) (hsound : k'.work.Sound db t (Held db t))
    (hpending : k.work.pending = []) (hlocks : ∀ id ∈ dead, db.accountLocks id.userId = some t)
    (haccount : k'.account = k.account) (herases : k'.erases = k.erases) : TxnInv db t k' := by
  refine ⟨hsound, fun v token hsome => ?_, fun v htouches => ?_,
    fun v s hsome => h.account v s (haccount.symm.trans hsome),
    fun v hsome => h.erases v (herases.symm.trans hsome)⟩
  · rw [hcredentials] at hsome
    exact h.stores v token hsome
  · by_cases hv : ∃ c, (⟨v, c⟩ : DeviceId) ∈ dead
    · obtain ⟨c, hmem⟩ := hv
      refine Or.inr (Or.inl ⟨hlocks _ hmem, fun _ => ⟨c, ⟨true, true⟩, ?_, Or.inr rfl⟩⟩)
      rw [Txn.device, hdevices, if_pos hmem]
      rfl
    · have hsame : Same k k' v := ⟨fun c => by
        rw [hdevices, if_neg fun hmem => hv ⟨c, hmem⟩], by rw [hcredentials]⟩
      refine h.settled_same hsame (fun hmem => ?_) htouches
      rw [hpending] at hmem
      cases hmem

/-! ### Statements -/

theorem userOf_isSome {s : StudentId} (h : db.userOf s = some u) : (db.accounts.get u).isSome := by
  obtain ⟨⟨v, s'⟩, hhead, rfl⟩ := Option.map_eq_some_iff.mp h
  have hmem := (Table.mem_select_iff ..).mp (List.mem_of_head? hhead)
  exact Option.isSome_iff_exists.mpr ⟨s', hmem.1⟩

theorem mem_owners {c : ClientDeviceId} {v : UserId} (h : v ∈ db.owners u c) :
    ∃ d, db.devices.get ⟨v, c⟩ = some d := by
  obtain ⟨⟨id, d⟩, hmem, rfl⟩ := List.mem_map.mp h
  obtain ⟨hget, hid⟩ := (Table.mem_select_iff ..).mp hmem
  obtain ⟨rfl, _⟩ := of_decide_eq_true hid
  exact ⟨d, hget⟩

theorem mem_lockOrder {us : List UserId} : u ∈ lockOrder us ↔ u ∈ us := by
  rw [lockOrder, List.mem_insertionSort, List.mem_dedup]

theorem handler_sound (handler : Handler) (h : Known db t u) : (handler.work u).Sound db t H := by
  cases handler with
  | signOut c =>
    refine ⟨fun v hv => ?_, Or.inl (List.mem_singleton_self u)⟩
    rwa [List.mem_singleton.mp hv]
  | register c => exact h
  | other => trivial

/-- The devices the portal's `UPDATE` is of. -/
def Work.picks : Work → List DeviceId
  | .deregistering ids => ids
  | _ => []

/-- Where the portal updates its devices, it has locked the accounts of all. -/
def PicksLocked (db : Db) : Label → Prop
  | .next t => ∀ k ∈ db.txns t, ∀ id ∈ k.work.picks,
      (db.devices.get id).any (·.isLive) = true → db.accountLocks id.userId = some t
  | _ => True

instance (db : Db) : (l : Label) → Decidable (PicksLocked db l)
  | .next t => inferInstanceAs (Decidable (∀ k ∈ db.txns t, ∀ id ∈ k.work.picks,
      (db.devices.get id).any (·.isLive) = true → db.accountLocks id.userId = some t))
  | .begin .. | .retire .. | .commit _ | .rollback _ => isTrue trivial

/-- A statement leaves its transaction well, and takes nothing from others. -/
theorem statement_inv (h : Inv db) (htxn : db.txns t = some k) (hok : PicksLocked db (.next t))
    (hstep : db.statement t k = some db') :
    ∃ db₁ k', db' = db₁.setTxn t k' ∧ Extends db db₁ ∧ TxnInv db₁ t k' := by
  have hk := h.txns t k htxn
  have hsound := hk.sound
  have hpending : ∀ {work : Work} {P : UserId → Prop}, k.work = work → work.pending = [] →
      ∀ v ∈ k.work.pending, P v := fun hwork hnil v hv => by
    rw [hwork, hnil] at hv
    cases hv
  unfold Db.statement at hstep
  split at hstep
  next s c token hwork =>
    split at hstep <;> cases hstep
    have hextends : Extends db { db with signInLocks := db.signInLocks.lock t c } :=
      { Extends.refl db with }
    exact ⟨_, _, rfl, hextends, hk.move hextends trivial (hpending hwork rfl)⟩
  next s c token hwork =>
    split at hstep
    next u huser =>
      cases hstep
      have hknown : Known db t u := Or.inl (userOf_isSome huser)
      exact ⟨_, _, rfl, .refl db, hk.move (.refl db) hknown (hpending hwork rfl)⟩
    next =>
      split at hstep <;> cases hstep
      obtain ⟨_, hunlocked, _⟩ := h.fresh db.nextUser le_rfl
      have hextends : Extends db { db with
          nextUser := db.nextUser + 1
          studentLocks := db.studentLocks.lock t s
          accountLocks := db.accountLocks.lock t db.nextUser } :=
        { Extends.refl db with
          nextUser := Nat.le_succ _
          locks := fun v t' hlock => RowLocks.lock_of_held hlock (Or.inl hunlocked)
          taken := fun v hne => by
            by_cases hv : v = db.nextUser
            · exact Or.inr ⟨hv.ge, hv.trans_lt (Nat.lt_succ_self _)⟩
            · exact absurd (Function.update_of_ne hv ..) hne }
      exact ⟨_, _, rfl, hextends, hk.move hextends RowLocks.lock_self (hpending hwork rfl)⟩
  next u s c token known hwork =>
    cases hstep
    rw [hwork] at hsound
    have hu : Known db t u := by
      cases known with
      | true => exact hsound
      | false => exact Or.inr (Or.inl hsound)
    refine ⟨_, _, rfl, .refl db, hk.move (.refl db) ⟨fun v hv => ?_, ?_⟩ (hpending hwork rfl)⟩
    · rcases List.mem_cons.mp (mem_lockOrder.mp hv) with rfl | howner
      · exact hu
      · obtain ⟨d, hd⟩ := mem_owners howner
        exact Or.inl (h.owned v c d hd)
    · cases known with
      | true => exact Or.inl (mem_lockOrder.mpr List.mem_cons_self)
      | false => exact hsound
  next next hwork =>
    cases hstep
    rw [hwork] at hsound
    have hnext := hsound.2.kept ((Extends.refl db).kept t) fun v hv => hv.resolve_left List.not_mem_nil
    exact ⟨_, _, rfl, .refl db, hk.move (.refl db) hnext (hpending hwork rfl)⟩
  next u us next hwork =>
    obtain ⟨db₁, hlock, rfl⟩ := Option.map_eq_some_iff.mp hstep
    rw [hwork] at hsound
    obtain ⟨hextends, hheld⟩ := lockAccount_held (hsound.1 u List.mem_cons_self) hlock
    have hkept := hextends.kept t
    refine ⟨_, _, rfl, hextends, hk.move hextends ⟨fun v hv => ?_, ?_⟩ (hpending hwork rfl)⟩
    · exact (hsound.1 v (List.mem_cons_of_mem u hv)).kept hkept
    · refine hsound.2.kept hkept fun v hv => ?_
      rcases hv with hmem | hbefore
      · rcases List.mem_cons.mp hmem with rfl | hrest
        · exact Or.inr hheld
        · exact Or.inl hrest
      · exact Or.inr (hbefore.kept hkept)
  next u s c token known hwork =>
    rw [hwork] at hsound
    cases known with
    | true =>
      rw [if_pos rfl] at hstep
      split at hstep <;> cases hstep
      next hsome =>
        have hlock := h.lock_of_held hsound hsome
        refine ⟨_, _, rfl, .refl db, hk.store hlock rfl rfl hlock (hpending hwork rfl) ?_ hk.account rfl⟩
        exact Or.inl (List.mem_singleton_self u)
    | false =>
      rw [if_neg Bool.false_ne_true] at hstep
      cases hstep
      refine ⟨_, _, rfl, .refl db, hk.store hsound rfl rfl hsound (hpending hwork rfl) ?_ ?_ rfl⟩
      · exact Or.inl (List.mem_singleton_self u)
      · intro v s' hsome
        obtain ⟨rfl, _⟩ := Prod.mk.inj (Option.some.inj hsome)
        exact hsound
  next u c hwork =>
    cases hstep
    rw [hwork] at hsound
    refine ⟨_, _, rfl, .refl db, .take _ none hk (fun id => Table.get_upsertEach_const ..) rfl
      ⟨fun v hv => ?_, hsound⟩ (fun v hv => ?_) (fun id hid => ?_) rfl rfl⟩
    · obtain ⟨d, hd⟩ := mem_owners hv
      exact Or.inl (h.owned v c d hd)
    · rw [hwork] at hv
      exact List.mem_append_right _ hv
    · obtain ⟨v, hv, rfl⟩ := List.mem_map.mp hid
      exact List.mem_append_left _ hv
  next next hwork =>
    cases hstep
    rw [hwork] at hsound
    refine ⟨_, _, rfl, .refl db, hk.move (.refl db) hsound.2 fun v hv => ?_⟩
    rwa [hwork] at hv
  next u us next hwork =>
    obtain ⟨db₁, hlock, rfl⟩ := Option.map_eq_some_iff.mp hstep
    rw [hwork] at hsound
    obtain ⟨hextends, hheld⟩ := lockAccount_held (hsound.1 u List.mem_cons_self) hlock
    have hkept := hextends.kept t
    refine ⟨_, _, rfl, hextends, hk.move hextends ⟨hheld, fun v hv => ?_, ?_⟩ fun v hv => ?_⟩
    · exact (hsound.1 v (List.mem_cons_of_mem u hv)).kept hkept
    · exact hsound.2.kept hkept fun v hv => hv.kept hkept
    · rwa [hwork] at hv
  next u us next hwork =>
    cases hstep
    rw [hwork] at hsound
    refine ⟨_, _, rfl, .refl db, .looked [u] hk h rfl (fun v => ?_) (fun v hv => ?_)
      hsound.2 (fun v hv => ?_) rfl rfl⟩
    · show (if k.signedIn db u = true then k.credentials else k.credentials.set u none).get v = _
      cases hsigned : k.signedIn db u with
      | true =>
        rw [if_pos rfl, if_neg]
        rintro ⟨hv, hnone⟩
        rw [List.mem_singleton.mp hv, hsigned] at hnone
        cases hnone
      | false =>
        rw [if_neg Bool.false_ne_true, Table.get_set]
        by_cases hv : v = u
        · rw [if_pos hv, if_pos ⟨List.mem_singleton.mpr hv, by rw [hv, hsigned]⟩]
        · rw [if_neg hv, if_neg fun hboth => hv (List.mem_singleton.mp hboth.1)]
    · rw [List.mem_singleton.mp hv]
      exact hsound.1
    · rw [hwork] at hv
      exact (List.mem_cons.mp hv).imp List.mem_singleton.mpr id
  next u c hwork =>
    cases hstep
    rw [hwork] at hsound
    refine ⟨_, _, rfl, .refl db, hk.revive trivial fun v hv => ?_⟩
    rw [hwork] at hv
    exact ⟨List.mem_singleton.mp hv, hsound⟩
  next u c hwork =>
    split at hstep <;> cases hstep
    rw [hwork] at hsound
    refine ⟨_, _, rfl, .refl db, .take [⟨u, c⟩] (some ⟨true, false⟩) hk (fun id => ?_) rfl
      ⟨fun v hv => ?_, trivial⟩ (hpending hwork rfl) (fun id hid => ?_) rfl rfl⟩
    · simp only [List.mem_singleton]
      exact Table.get_set ..
    · rw [List.mem_singleton.mp hv]
      exact Or.inr hsound
    · rw [List.mem_singleton.mp hid]
      exact List.mem_singleton_self u
  next u c hwork =>
    rw [hwork] at hsound
    split at hstep <;> cases hstep
    · refine ⟨_, _, rfl, .refl db, hk.move (.refl db) ⟨fun v hv => ?_, trivial⟩ (hpending hwork rfl)⟩
      rw [List.mem_singleton.mp hv]
      exact hsound
    · exact ⟨_, _, rfl, .refl db, hk.revive trivial (hpending hwork rfl)⟩
  next u c hwork =>
    cases hstep
    exact ⟨_, _, rfl, .refl db, hk.revive trivial (hpending hwork rfl)⟩
  next u caller handler hwork =>
    rw [hwork] at hsound
    have hnext : (handler.work u).Sound db t (Held db t) := handler_sound handler (Or.inr hsound)
    split at hstep <;> cases hstep
    · exact ⟨_, _, rfl, .refl db, hk.revive hnext (hpending hwork rfl)⟩
    · exact ⟨_, _, rfl, .refl db, hk.move (.refl db) hnext (hpending hwork rfl)⟩
  next u token hwork =>
    rw [hwork] at hsound
    split at hstep <;> cases hstep
    next hboth =>
      obtain ⟨hsome, hsigned⟩ := hboth
      have hlock := h.lock_of_held hsound hsome
      refine ⟨_, _, rfl, .refl db, hk.store hlock rfl rfl trivial (hpending hwork rfl) (Or.inr ?_)
        hk.account rfl⟩
      obtain ⟨c, d, hd, hlive⟩ := (signedIn_iff k db u).mp hsigned
      exact fun _ => ⟨c, d, hd, Or.inl hlive⟩
    next => exact ⟨_, _, rfl, .refl db, hk.move (.refl db) trivial (hpending hwork rfl)⟩
  next ids hwork =>
    cases hstep
    refine ⟨_, _, rfl, .refl db, .take _ (some ⟨true, false⟩) hk
      (fun id => Table.get_upsertEach_const ..) rfl (fun v hv => ?_) (hpending hwork rfl)
      (fun id hid => List.mem_map_of_mem hid) rfl rfl⟩
    obtain ⟨id, hid, rfl⟩ := List.mem_map.mp hv
    obtain ⟨hmem, hlive⟩ := List.mem_filter.mp hid
    exact hok k htxn id (by rw [hwork]; exact hmem) hlive
  next us hwork =>
    cases hstep
    rw [hwork] at hsound
    refine ⟨_, _, rfl, .refl db, .looked us hk h rfl (fun v => ?_) (fun v hv => Or.inl (hsound v hv))
      trivial (fun v hv => ?_) rfl rfl⟩
    · show (k.credentials.upsertEach _ _ _).get v = _
      rw [Table.get_upsertEach_const]
      simp only [List.mem_filter, Bool.not_eq_true']
    · rw [hwork] at hv
      exact Or.inl hv
  next u hwork =>
    cases hstep
    rw [hwork] at hsound
    have hmoved : TxnInv db t { k with work := .ready } :=
      hk.move (.refl db) trivial (hpending hwork rfl)
    refine ⟨_, _, rfl, .refl db, { hmoved with erases := fun v hv => ?_ }⟩
    obtain rfl := Option.some.inj hv
    exact hsound
  next => cases hstep
  next => cases hstep

theorem retire_inv {dead : List DeviceId} (h : Inv db) (htxn : db.txns t = some k)
    (hstep : db.retire t k dead = some db') : ∃ k', db' = db.setTxn t k' ∧ TxnInv db t k' := by
  have hk := h.txns t k htxn
  have hsound := hk.sound
  unfold Db.retire at hstep
  split at hstep
  next us hwork =>
    split at hstep <;> cases hstep
    next hdead =>
      rw [hwork] at hsound
      refine ⟨_, rfl, hk.retire (fun id => Table.get_upsertEach_const ..) rfl trivial
        (by rw [hwork]; rfl) (fun id hid => ?_) rfl rfl⟩
      obtain ⟨hmem, hlive⟩ := hdead id hid
      obtain ⟨d, hd, _⟩ := (any_isLive_iff _).mp hlive
      exact h.lock_of_held (hsound _ hmem) (h.owned _ _ d hd)
  next => cases hstep

/-! ### What each step keeps -/

/-- A statement keeps what holds of every state. -/
theorem Inv.setTxn (h : Inv db) (hextends : Extends db db₁) (hk : TxnInv db₁ t k) :
    Inv (db₁.setTxn t k) where
  owned u c d hd := by
    have hd : db₁.devices.get ⟨u, c⟩ = some d := hd
    show (db₁.accounts.get u).isSome
    rw [hextends.devices] at hd
    rw [hextends.accounts]
    exact h.owned u c d hd
  covered u htoken := by
    have htoken : db₁.credentials.get u ≠ none := htoken
    rw [hextends.credentials] at htoken
    obtain ⟨c, d, hd, hcovers⟩ := h.covered u htoken
    exact ⟨c, d, by rw [← hextends.devices] at hd; exact hd, hcovers⟩
  erased u hmem := by
    have hmem : u ∈ db₁.erased := hmem
    rw [hextends.erased] at hmem
    obtain ⟨hnone, hunlocked⟩ := h.erased u hmem
    refine ⟨by rw [← hextends.accounts] at hnone; exact hnone, ?_⟩
    show db₁.accountLocks u = none
    by_contra hlocked
    rcases hextends.taken u (by rwa [hunlocked]) with hsome | ⟨hfresh, _⟩
    · rw [hnone] at hsome
      cases hsome
    · exact (h.fresh u hfresh).2.2 hmem
  fresh u hle := by
    obtain ⟨hnone, hunlocked, hnot⟩ := h.fresh u (hextends.nextUser.trans hle)
    refine ⟨by rw [← hextends.accounts] at hnone; exact hnone, ?_, ?_⟩
    · show db₁.accountLocks u = none
      by_contra hlocked
      rcases hextends.taken u (by rwa [hunlocked]) with hsome | ⟨_, hlt⟩
      · rw [hnone] at hsome
        cases hsome
      · exact absurd hle (Nat.not_le.mpr hlt)
    · show u ∉ db₁.erased
      rwa [hextends.erased]
  txns t' k' hk' := by
    rcases update_cases hk' with ⟨rfl, hsame⟩ | ⟨_, hold⟩
    · obtain rfl := Option.some.inj hsame
      exact hk.kept ((Extends.refl db₁).kept _ |>.setTxn k)
    · rw [hextends.txns] at hold
      exact (h.txns t' k' hold).kept ((hextends.kept t').setTxn k)

/-- A transaction that begins has written nothing. -/
theorem TxnInv.begun (hsound : work.Sound db t (Held db t)) : TxnInv db t (.begun work) where
  sound := hsound
  stores _ _ hget := nomatch hget
  settled _ htouches := by
    rcases htouches with ⟨_, _, hget, _⟩ | hsome
    · cases hget
    · cases hsome
  account _ _ hget := nomatch hget
  erases _ hget := nomatch hget

theorem request_sound {request : Request} (h : Inv db) (hwork : request.work db = some work) :
    work.Sound db t H := by
  have hlocked : ∀ {u : UserId}, (db.accounts.get u).isSome → ∀ v ∈ [u], Known db t v :=
    fun hsome v hv => by
      rw [List.mem_singleton.mp hv]
      exact Or.inl hsome
  have hlive : ∀ id : DeviceId, (db.devices.get id).any (·.isLive) = true → Known db t id.userId :=
    fun id hany => by
      obtain ⟨d, hd, _⟩ := (any_isLive_iff _).mp hany
      exact Or.inl (h.owned _ _ d hd)
  unfold Request.work at hwork
  split at hwork
  · cases hwork
    trivial
  next u caller handler =>
    split at hwork
    next hsome =>
      split at hwork <;> cases hwork
      · exact ⟨hlocked hsome, Or.inl (List.mem_singleton_self u)⟩
      · exact handler_sound handler (Or.inl hsome)
    next => cases hwork
  next u token =>
    split at hwork <;> cases hwork
    exact ⟨hlocked ‹_›, Or.inl (List.mem_singleton_self u)⟩
  next dead =>
    split at hwork <;> cases hwork
    next hdead =>
      refine ⟨fun v hv => ?_, fun v hv => Or.inl hv⟩
      obtain ⟨id, hid, rfl⟩ := List.mem_map.mp (mem_lockOrder.mp hv)
      exact hlive id (hdead id hid)
  next ids =>
    cases hwork
    refine ⟨fun v hv => ?_, trivial⟩
    obtain ⟨id, hid, rfl⟩ := List.mem_map.mp (mem_lockOrder.mp hv)
    exact hlive id (List.mem_filter.mp hid).2
  next u =>
    split at hwork <;> cases hwork
    exact ⟨hlocked ‹_›, Or.inl (List.mem_singleton_self u)⟩

/-! ### Commits -/

theorem get_commit_devices (db : Db) (t : TxnId) (k : Txn) (id : DeviceId) :
    (db.commitTxn t k).devices.get id =
      if k.erases = some id.userId then none else k.device db id := by
  show ((db.devices.applyWrites k.devices).deleteWhere _).get id = _
  rw [Table.get_deleteWhere_key, Table.get_applyWrites]
  rfl

theorem get_commit_credentials (db : Db) (t : TxnId) (k : Txn) (u : UserId) :
    (db.commitTxn t k).credentials.get u =
      if k.erases = some u then none else k.credential db u := by
  show ((db.credentials.applyWrites k.credentials).deleteWhere _).get u = _
  rw [Table.get_deleteWhere_key, Table.get_applyWrites]
  rfl

theorem get_commit_accounts (db : Db) (t : TxnId) (k : Txn) (u : UserId) :
    (db.commitTxn t k).accounts.get u =
      if k.erases = some u then none
      else (k.account.elim db.accounts fun a => db.accounts.set a.1 a.2).get u := by
  show ((k.account.elim db.accounts _).deleteWhere _).get u = _
  rw [Table.get_deleteWhere_key]

/-- The accounts a commit adds and keeps. -/
theorem account_isSome (hsome : (db.accounts.get u).isSome ∨ k.account.map Prod.fst = some u) :
    ((k.account.elim db.accounts fun a => db.accounts.set a.1 a.2).get u).isSome := by
  cases haccount : k.account with
  | none =>
    rw [haccount] at hsome
    exact hsome.resolve_right nofun
  | some a =>
    show ((db.accounts.set a.1 a.2).get u).isSome
    rw [Table.get_set]
    split
    · rfl
    next hne =>
      refine hsome.resolve_right fun heq => hne ?_
      rw [haccount] at heq
      exact (Option.some.inj heq).symm

/-- A commit adds no account that it does not hold. -/
theorem account_none (h : TxnInv db t k) (hnone : db.accounts.get u = none)
    (hunlocked : db.accountLocks u = none) : (db.commitTxn t k).accounts.get u = none := by
  rw [get_commit_accounts]
  split
  · rfl
  cases haccount : k.account with
  | none => exact hnone
  | some a =>
    show (db.accounts.set a.1 a.2).get u = none
    rw [Table.get_set]
    split
    next hu =>
      have hlock := h.account a.1 a.2 haccount
      rw [← hu, hunlocked] at hlock
      cases hlock
    next => exact hnone

/-- Where a transaction has taken nothing from a user, a device that keeps the token stays. -/
theorem device_of_untouched {c : ClientDeviceId} {d : UserDevice} (h : ¬k.Touches u)
    (hd : db.devices.get ⟨u, c⟩ = some d) (hcovers : d.Covers) :
    ∃ d', k.device db ⟨u, c⟩ = some d' ∧ d'.Covers := by
  cases hk : k.devices.get ⟨u, c⟩ with
  | none => exact ⟨d, by rw [Txn.device, hk]; exact hd, hcovers⟩
  | some w =>
    have hlive : ¬w.all (·.isDeleted) = true := fun hall => h (Or.inl ⟨c, w, hk, hall⟩)
    cases w with
    | none => exact absurd rfl hlive
    | some d' =>
      refine ⟨d', by rw [Txn.device, hk]; rfl, Or.inl ?_⟩
      simpa using hlive

theorem credential_of_untouched (h : ¬k.Touches u) : k.credential db u = db.credentials.get u := by
  have hnone : k.credentials.get u = none := by
    by_contra hsome
    exact h (Or.inr (Option.isSome_iff_ne_none.mpr hsome))
  rw [Txn.credential, hnone]
  rfl

/-- A transaction that may commit has looked at every user it has touched. -/
theorem Inv.settled (h : Inv db) (htxn : db.txns t = some k) (hready : k.work = .ready)
    (htouches : k.Touches u) : Settled db t k u := by
  refine ((h.txns t k htxn).settled u htouches).resolve_left fun hmem => ?_
  rw [hready] at hmem
  cases hmem

/-- What another transaction holds is neither touched nor erased. -/
theorem Inv.untouched (h : Inv db) (htxn : db.txns t = some k) (hready : k.work = .ready)
    (hlock : db.accountLocks u = some t') (hne : t' ≠ t) : ¬k.Touches u ∧ k.erases ≠ some u := by
  have hnot := h.not_erased hlock
  have hheld : ¬Held db t u := fun hheld => by
    have hmine := hheld.resolve_right hnot
    exact hne (Option.some.inj (hlock.symm.trans hmine))
  refine ⟨fun htouches => hheld ?_, fun herases => hheld ((h.txns t k htxn).erases u herases)⟩
  exact (h.settled htxn hready htouches).imp And.left And.left

theorem kept_commit (h : Inv db) (htxn : db.txns t = some k) (hready : k.work = .ready)
    (hne : t' ≠ t) : Kept t' db (db.commitTxn t k) where
  locks u hlock := RowLocks.release_of_held hlock hne
  accounts u hsome := by
    by_cases herases : k.erases = some u
    · refine Or.inr (List.mem_append_left _ ?_)
      rw [herases]
      exact List.mem_singleton_self u
    · rw [get_commit_accounts, if_neg herases]
      exact Or.inl (account_isSome (Or.inl hsome))
  erased u hmem := List.mem_append_right _ hmem
  credentials u hlock := by
    obtain ⟨huntouched, herases⟩ := h.untouched htxn hready hlock hne
    rw [get_commit_credentials, if_neg herases, credential_of_untouched huntouched]
  devices u c d hlock hd hcovers := by
    obtain ⟨huntouched, herases⟩ := h.untouched htxn hready hlock hne
    rw [get_commit_devices, if_neg herases]
    exact device_of_untouched huntouched hd hcovers

theorem kept_close (db : Db) (hne : t' ≠ t) : Kept t' db (db.close t) where
  locks _ hlock := RowLocks.release_of_held hlock hne
  accounts _ hsome := Or.inl hsome
  erased _ hmem := hmem
  credentials _ _ := rfl
  devices _ _ d _ hd hcovers := ⟨d, hd, hcovers⟩

theorem release_eq_none (h : db.accountLocks u = none) : db.accountLocks.release t u = none := by
  have hfree : ¬(none : Option TxnId) = some t := Option.some_ne_none t ∘ Eq.symm
  rw [RowLocks.release, h, if_neg hfree]

theorem Inv.commit (h : Inv db) (htxn : db.txns t = some k) (hready : k.work = .ready)
    (hreferenced : db.Referenced k) : Inv (db.commitTxn t k) := by
  have hk := h.txns t k htxn
  refine ⟨fun u c d hd => ?_, fun u htoken => ?_, fun u hmem => ?_, fun u hle => ?_, ?_⟩
  · rw [get_commit_devices] at hd
    split at hd
    · cases hd
    next herases =>
      rw [get_commit_accounts, if_neg herases]
      refine account_isSome ?_
      cases hwritten : k.devices.get ⟨u, c⟩ with
      | none =>
        rw [Txn.device, hwritten] at hd
        exact Or.inl (h.owned u c d hd)
      | some w =>
        rw [Txn.device, hwritten] at hd
        obtain rfl : w = some d := hd
        exact hreferenced _ ((Table.get_eq_some_iff ..).mp hwritten) rfl
  · rw [get_commit_credentials] at htoken
    split at htoken
    · exact absurd rfl htoken
    next herases =>
      have hcovered : ∃ c d, k.device db ⟨u, c⟩ = some d ∧ d.Covers := by
        by_cases htouches : k.Touches u
        · rcases h.settled htxn hready htouches with ⟨_, hcovered⟩ | ⟨hgone, hnone⟩
          · exact hcovered htoken
          · -- A user who is gone has no token, and gets none.
            refine absurd ?_ htoken
            rw [Txn.credential]
            cases hwritten : k.credentials.get u with
            | none =>
              by_contra hsome
              obtain ⟨c, d, hd, _⟩ := h.covered u hsome
              have haccount := h.owned u c d hd
              rw [(h.erased u hgone).1] at haccount
              cases haccount
            | some token =>
              cases token with
              | none => rfl
              | some token => exact absurd hwritten (hnone token)
        · rw [credential_of_untouched htouches] at htoken
          obtain ⟨c, d, hd, hcovers⟩ := h.covered u htoken
          exact ⟨c, device_of_untouched htouches hd hcovers⟩
      obtain ⟨c, d, hd, hcovers⟩ := hcovered
      exact ⟨c, d, by rw [get_commit_devices, if_neg herases]; exact hd, hcovers⟩
  · show (db.commitTxn t k).accounts.get u = none ∧ db.accountLocks.release t u = none
    rcases List.mem_append.mp hmem with herases | hgone
    · have herases := Option.mem_toList.mp herases
      refine ⟨by rw [get_commit_accounts, if_pos herases], ?_⟩
      rcases hk.erases u herases with hlock | hgone
      · rw [RowLocks.release, if_pos hlock]
      · exact release_eq_none (h.erased u hgone).2
    · obtain ⟨hnone, hunlocked⟩ := h.erased u hgone
      exact ⟨account_none hk hnone hunlocked, release_eq_none hunlocked⟩
  · obtain ⟨hnone, hunlocked, hnot⟩ := h.fresh u hle
    refine ⟨account_none hk hnone hunlocked, release_eq_none hunlocked, fun hmem => ?_⟩
    rcases List.mem_append.mp hmem with herases | hgone
    · rcases hk.erases u (Option.mem_toList.mp herases) with hlock | hgone
      · rw [hunlocked] at hlock
        cases hlock
      · exact hnot hgone
    · exact hnot hgone
  · intro t' k' hk'
    rcases update_cases hk' with ⟨_, hnone⟩ | ⟨hne, hold⟩
    · cases hnone
    · exact (h.txns t' k' hold).kept (kept_commit h htxn hready hne)

theorem Inv.close (h : Inv db) (t : TxnId) : Inv (db.close t) where
  owned := h.owned
  covered := h.covered
  erased u hmem := ⟨(h.erased u hmem).1, release_eq_none (h.erased u hmem).2⟩
  fresh u hle := by
    obtain ⟨hnone, hunlocked, hnot⟩ := h.fresh u hle
    exact ⟨hnone, release_eq_none hunlocked, hnot⟩
  txns t' k' hk' := by
    rcases update_cases hk' with ⟨_, hnone⟩ | ⟨hne, hold⟩
    · cases hnone
    · exact (h.txns t' k' hold).kept (kept_close db hne)

/-! ### Runs -/

theorem Inv.step {l : Label} (h : Inv db) (hok : PicksLocked db l)
    (hstep : Accounts.step db l = some db') : Inv db' := by
  cases l with
  | begin t request =>
    simp only [Accounts.step] at hstep
    split at hstep
    next =>
      obtain ⟨work, hwork, rfl⟩ := Option.map_eq_some_iff.mp hstep
      exact h.setTxn (.refl db) (.begun (request_sound h hwork))
    next => cases hstep
  | next t =>
    obtain ⟨k, htxn, hstatement⟩ := Option.bind_eq_some_iff.mp hstep
    obtain ⟨db₁, k', rfl, hextends, hk⟩ := statement_inv h htxn hok hstatement
    exact h.setTxn hextends hk
  | retire t dead =>
    obtain ⟨k, htxn, hretire⟩ := Option.bind_eq_some_iff.mp hstep
    obtain ⟨k', rfl, hk⟩ := retire_inv h htxn hretire
    exact h.setTxn (.refl db) hk
  | commit t =>
    obtain ⟨k, htxn, hcommit⟩ := Option.bind_eq_some_iff.mp hstep
    split at hcommit <;> cases hcommit
    next hboth => exact h.commit htxn hboth.1 hboth.2
  | rollback t =>
    cases hstep
    exact h.close t

theorem inv_initial : Inv Db.initial where
  owned _ _ _ hd := nomatch hd
  covered _ htoken := absurd rfl htoken
  erased _ hmem := nomatch hmem
  fresh _ _ := ⟨rfl, rfl, List.not_mem_nil⟩
  txns _ _ htxn := nomatch htxn

/-- In every run in which no device comes back between the two statements of the portal, a stored
token is of a user who has a device, or one the retirement has taken. So once the last device has
signed out, or has been taken over, the token is gone. -/
theorem token_owned (hrun : Run step PicksLocked Db.initial labels db)
    (htoken : db.credentials.get u ≠ none) :
    ∃ c d, db.devices.get ⟨u, c⟩ = some d ∧ (d.isDeleted = false ∨ d.retired = true) :=
  (hrun.invariant Inv inv_initial fun _ _ _ hinv hok hstep => hinv.step hok hstep).covered u htoken

/-- A transaction that nothing comes in between of, up to its commit. -/
def opened (t : TxnId) (request : Request) (statements : Nat) : List Label :=
  .begin t request :: List.replicate statements (.next t)

/-- One student signs in, another takes the device over and registers a second one, and the portal
deregisters that. -/
def takenOver : List Label :=
  List.flatten [
    opened 0 (.signIn 1 5 11) 9, [.commit 0],
    opened 1 (.signIn 2 5 12) 12, [.commit 1],
    opened 2 (.api 1 5 (.register 6)) 1, [.commit 2],
    opened 3 (.deregisterDevices [⟨1, 6⟩]) 4, [.commit 3]]

theorem token_owned_of_takenOver :
    ∃ db, Run step PicksLocked Db.initial takenOver db ∧ db.credentials.get 0 = none ∧
      db.credentials.get 1 = some 12 ∧
      ∃ c d, db.devices.get ⟨1, c⟩ = some d ∧ (d.isDeleted = false ∨ d.retired = true) := by
  have hexec : (execWhere step PicksLocked Db.initial takenOver).map
      (fun db => (db.credentials.get 0, db.credentials.get 1)) = some (none, some 12) := by
    decide +kernel
  obtain ⟨db, hdb, hget⟩ := Option.map_eq_some_iff.mp hexec
  obtain ⟨hfirst, hsecond⟩ := Prod.mk.inj hget
  have hrun := run_of_execWhere hdb
  exact ⟨db, hrun, hfirst, hsecond, token_owned hrun (by rw [hsecond]; exact nofun)⟩

/-- A student with two devices, of which the second is signed out and comes back after the portal
has looked for it; the first signs out while the portal deregisters the second. -/
def pickedUnlocked : List Label :=
  List.flatten [
    opened 0 (.signIn 1 5 11) 9, [.commit 0],
    opened 1 (.api 0 5 (.register 6)) 1, [.commit 1],
    opened 2 (.api 0 5 (.signOut 6)) 6, [.commit 2],
    opened 3 (.deregisterDevices [⟨0, 6⟩]) 1,
    opened 4 (.api 0 5 (.register 6)) 4, [.commit 4, .next 3],
    opened 5 (.api 0 5 (.signOut 5)) 6, [.next 3, .commit 3, .commit 5]]

-- Each of the two sees the other's device, and the token stays without one.
example : (exec step Db.initial pickedUnlocked).map (fun db => (db.credentials.get 0,
    db.devices.keys.all fun id => (db.devices.get id).all (·.isDeleted))) = some (some 11, true) := by
  decide +kernel

end TigerDuck.Auth.Accounts
