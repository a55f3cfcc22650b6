import TigerDuck.Devices.PushTokens

/-!
# Who a push token belongs to

What a registration leaves active: its own row, and of the others those that are not of its
purpose. It looks for the token's row under its scope, so a row of the same token under another
scope stays, on whatever device it is.

## Main results

- `one_active_token_per_purpose`: one standard and one push-to-start token for each device and
  provider, and one update token for each device and activity.
- `token_reaches_one_device`: a token is active on the device that registered it last alone,
  exactly where no registration meets the token under another scope on another device.
- `rescoped_token_stays`: a restored device names a scope, and the old device keeps the token.
-/

namespace TigerDuck.Devices

open Relational Transition

variable {sha256 : String → String} {db db' : Db} {l : Label} {id id' : TokenId}
  {t t' : DevicePushToken}

/-! ### Registrations -/

/-- A token a device registers. -/
structure Registration where
  device : DeviceId
  key : TokenKey
  scopeKey : String

def Label.registration (sha256 : String → String) : Label → Option Registration
  | .registerDevice device (some token) =>
    some ⟨device, ⟨token.provider, token.tokenKind, sha256 token.tokenValue⟩, token.scopeKey⟩
  | .registerLiveActivity device payload =>
    some ⟨device, ⟨.apns, .liveActivityUpdate, sha256 payload.updateTokenHex⟩, payload.activityId⟩
  | _ => none

variable {r : Registration}

/-- The row the registration looks for. -/
def Registration.Finds (r : Registration) (t : DevicePushToken) : Prop :=
  t.key = r.key ∧ t.scopeKey = r.scopeKey

/-- The rows the registration retires. -/
def Registration.Supersedes (r : Registration) (t : DevicePushToken) : Prop :=
  t.deviceId = r.device ∧ t.key.provider = r.key.provider ∧ t.key.tokenKind = r.key.tokenKind ∧
    (r.key.tokenKind = .liveActivityUpdate → t.scopeKey = r.scopeKey)

theorem samePurpose_iff (hdevice : t'.deviceId = r.device) (hfinds : r.Finds t') :
    t.samePurpose t' = true ↔ r.Supersedes t := by
  unfold DevicePushToken.samePurpose Registration.Supersedes
  rw [hdevice, hfinds.1, hfinds.2]
  simp only [Bool.and_eq_true, Bool.or_eq_true, decide_eq_true_eq, ne_eq, ← imp_iff_not_or]
  exact ⟨fun ⟨⟨⟨h₁, h₂⟩, h₃⟩, h₄⟩ => ⟨h₁, h₂, h₃, h₄⟩, fun ⟨h₁, h₂, h₃, h₄⟩ => ⟨⟨⟨h₁, h₂⟩, h₃⟩, h₄⟩⟩

/-- Tokens that only go out of use, or on as they are. -/
structure Fades (db db' : Db) : Prop where
  below : ∀ id t, db'.tokens.get id = some t → id < db'.nextToken
  active : ∀ id t, db'.tokens.get id = some t → t.status = .active → db.tokens.get id = some t

/-- What a registration leaves: `rid` is its row. -/
structure Registers (sha256 : String → String) (db db' : Db) (r : Registration) : Prop where
  below : ∀ id t, db'.tokens.get id = some t → id < db'.nextToken
  active : ∃ rid, ∀ id t, db'.tokens.get id = some t → t.status = .active →
    id = rid ∧ t.deviceId = r.device ∧ r.Finds t ∧ sha256 t.tokenValue = t.key.tokenHash ∨
      id ≠ rid ∧ db.tokens.get id = some t ∧ ¬ r.Finds t ∧ ¬ r.Supersedes t
  others : ∀ id t, db.tokens.get id = some t → t.status = .active → t.deviceId ≠ r.device →
    ¬ r.Finds t → db'.tokens.get id = some t

/-- What holds of the rows in every reachable state. -/
structure Db.Sound (sha256 : String → String) (db : Db) : Prop where
  below : ∀ id t, db.tokens.get id = some t → id < db.nextToken
  /-- `ux_push_token_active` -/
  unique : ∀ id id' t t', db.tokens.get id = some t → db.tokens.get id' = some t' →
    t.status = .active → t'.status = .active → t.key = t'.key → t.scopeKey = t'.scopeKey → id = id'
  apns : ∀ id t, db.tokens.get id = some t → t.status = .active → t.key.tokenKind ≠ .standard →
    t.key.provider = .apns
  hashed : ∀ id t, db.tokens.get id = some t → t.status = .active →
    sha256 t.tokenValue = t.key.tokenHash

/-! ### What the statements do -/

theorem get_invalidate (p : TokenId → DevicePushToken → Bool) (id : TokenId) :
    (db.invalidate p).tokens.get id = (db.tokens.get id).map fun t =>
      if t.status = .active && p id t then { t with status := .invalidated } else t :=
  Table.get_modify ..

/-- A row that is active after an `UPDATE` was so before it, and was not picked. -/
theorem active_of_invalidate {p : TokenId → DevicePushToken → Bool}
    (h : (db.invalidate p).tokens.get id = some t) (hactive : t.status = .active) :
    db.tokens.get id = some t ∧ p id t = false := by
  rw [get_invalidate] at h
  obtain ⟨old, hold, rfl⟩ := Option.map_eq_some_iff.mp h
  split at hactive
  · cases hactive
  next hpicked =>
    rw [if_neg hpicked]
    refine ⟨hold, Bool.eq_false_iff.mpr fun hp => hpicked ?_⟩
    rw [hp, Bool.and_true, decide_eq_true_eq]
    exact hactive

/-- A row that is not picked stays. -/
theorem invalidate_of_not {p : TokenId → DevicePushToken → Bool}
    (h : db.tokens.get id = some t) (hp : p id t = false) :
    (db.invalidate p).tokens.get id = some t := by
  rw [get_invalidate, h, Option.map_some, hp, Bool.and_false, if_neg Bool.false_ne_true]

theorem below_invalidate {p : TokenId → DevicePushToken → Bool}
    (hbelow : ∀ id t, db.tokens.get id = some t → id < db.nextToken)
    (h : (db.invalidate p).tokens.get id = some t) : id < (db.invalidate p).nextToken := by
  rw [get_invalidate] at h
  obtain ⟨old, hold, _⟩ := Option.map_eq_some_iff.mp h
  exact hbelow id old hold

theorem activeToken_some {key : TokenKey} {scopeKey : String}
    (h : db.activeToken key scopeKey = some (id, t)) :
    db.tokens.get id = some t ∧ t.key = key ∧ t.scopeKey = scopeKey ∧ t.status = .active := by
  have hmem := List.mem_of_mem_head? (Option.mem_def.mpr h)
  obtain ⟨hget, hmatch⟩ := (Table.mem_select_iff ..).mp hmem
  exact ⟨hget, of_decide_eq_true hmatch⟩

theorem activeToken_none {key : TokenKey} {scopeKey : String}
    (h : db.activeToken key scopeKey = none) (hget : db.tokens.get id = some t)
    (hactive : t.status = .active) : ¬ (t.key = key ∧ t.scopeKey = scopeKey) := by
  rintro ⟨hkey, hscope⟩
  have hmem := (Table.mem_select_iff db.tokens (fun _ t => decide (t.key = key ∧
    t.scopeKey = scopeKey ∧ t.status = .active)) id t).mpr
      ⟨hget, decide_eq_true ⟨hkey, hscope, hactive⟩⟩
  rw [List.head?_eq_none_iff.mp h] at hmem
  cases hmem

theorem get_insertToken (t : DevicePushToken) (id : TokenId) :
    (db.insertToken t).tokens.get id = if id = db.nextToken then some t else db.tokens.get id :=
  Table.get_set ..

theorem get_updateToken (id' : TokenId) (f : DevicePushToken → DevicePushToken) (id : TokenId) :
    (db.updateToken id' f).tokens.get id =
      (db.tokens.get id).map fun t => if id = id' then f t else t :=
  Table.get_modify ..

/-! ### What the routes do -/

/-- The registration's row, stored or moved to its device, before the others are retired. -/
structure Placed (sha256 : String → String) (db db' : Db) (r : Registration) (rid : TokenId) (row : DevicePushToken) :
    Prop where
  below : ∀ id t, db'.tokens.get id = some t → id < db'.nextToken
  get : ∀ id, db'.tokens.get id = if id = rid then some row else db.tokens.get id
  device : row.deviceId = r.device
  finds : r.Finds row
  status : row.status = .active
  hashed : sha256 row.tokenValue = row.key.tokenHash
  alone : ∀ id t, id ≠ rid → db.tokens.get id = some t → t.status = .active → ¬ r.Finds t
  /-- Where it moves a row, it is one that is found. -/
  found : ∀ t, db.tokens.get rid = some t → r.Finds t

theorem placed_insert (hsound : db.Sound sha256) {row : DevicePushToken} (hdevice : row.deviceId = r.device)
    (hfinds : r.Finds row) (hstatus : row.status = .active)
    (hhashed : sha256 row.tokenValue = row.key.tokenHash)
    (hnone : db.activeToken r.key r.scopeKey = none) :
    Placed sha256 db (db.insertToken row) r db.nextToken row where
  below := fun id t h => by
    rw [get_insertToken] at h
    split at h
    next hid => exact hid ▸ Nat.lt_succ_self _
    next => exact Nat.lt_succ_of_lt (hsound.below id t h)
  get := get_insertToken row
  device := hdevice
  finds := hfinds
  status := hstatus
  hashed := hhashed
  alone := fun _ _ _ hget hactive => activeToken_none hnone hget hactive
  found := fun t hget => absurd (hsound.below _ t hget) (Nat.lt_irrefl _)

theorem placed_move (hsound : db.Sound sha256) {f : DevicePushToken → DevicePushToken}
    (hsome : db.activeToken r.key r.scopeKey = some (id, t)) (hdevice : (f t).deviceId = r.device)
    (hkey : (f t).key = t.key) (hscope : (f t).scopeKey = t.scopeKey)
    (hstatus : (f t).status = t.status) (hhashed : sha256 (f t).tokenValue = (f t).key.tokenHash) :
    Placed sha256 db (db.updateToken id f) r id (f t) := by
  obtain ⟨hget, htkey, htscope, hactive⟩ := activeToken_some hsome
  refine ⟨fun id' t' h => ?_, fun id' => ?_, hdevice, ⟨hkey.trans htkey, hscope.trans htscope⟩,
    hstatus.trans hactive, hhashed, fun id' t' hne hget' hactive' hfinds => hne ?_, fun t' hget' => ?_⟩
  · rw [get_updateToken] at h
    obtain ⟨old, hold, _⟩ := Option.map_eq_some_iff.mp h
    exact hsound.below id' old hold
  · rw [get_updateToken]
    split
    next hid => rw [hid, hget, Option.map_some]
    next => rw [Option.map_id']
  · -- Two active rows of one key and scope are one row.
    exact hsound.unique id' id t' t hget' hget hactive' hactive (hfinds.1.trans htkey.symm)
      (hfinds.2.trans htscope.symm)
  · obtain rfl := Option.some.inj (hget.symm.trans hget')
    exact ⟨htkey, htscope⟩

theorem registers_of_retire {rid : TokenId} {row : DevicePushToken}
    (hplaced : Placed sha256 db db' r rid row) : Registers sha256 db (db'.retireSupersededTokens rid row) r := by
  unfold Db.retireSupersededTokens
  refine ⟨fun id t h => below_invalidate hplaced.below h, ⟨rid, fun id t h hactive => ?_⟩,
    fun id t h hactive hdevice hfinds => ?_⟩
  · obtain ⟨hget, hkept⟩ := active_of_invalidate h hactive
    rw [hplaced.get] at hget
    split at hget
    next hid =>
      obtain rfl := Option.some.inj hget
      exact .inl ⟨hid, hplaced.device, hplaced.finds, hplaced.hashed⟩
    next hid =>
      refine .inr ⟨hid, hget, hplaced.alone id t hid hget hactive, fun hsupersedes => ?_⟩
      rw [(samePurpose_iff hplaced.device hplaced.finds).mpr hsupersedes, Bool.and_true] at hkept
      exact hid (of_not_not (of_decide_eq_false hkept))
  · have hid : id ≠ rid := fun hid => hfinds (hplaced.found t (hid ▸ h))
    refine invalidate_of_not ?_ ?_
    · rw [hplaced.get, if_neg hid, h]
    · refine Bool.and_eq_false_imp.mpr fun _ => Bool.eq_false_iff.mpr fun hpurpose => hdevice ?_
      exact ((samePurpose_iff hplaced.device hplaced.finds).mp hpurpose).1

theorem Db.Sound.invalidate (hsound : db.Sound sha256) (p : TokenId → DevicePushToken → Bool) :
    (db.invalidate p).Sound sha256 where
  below := fun _ _ h => below_invalidate hsound.below h
  unique := fun id id' t t' h h' hactive hactive' =>
    hsound.unique id id' t t' (active_of_invalidate h hactive).1
      (active_of_invalidate h' hactive').1 hactive hactive'
  apns := fun id t h hactive => hsound.apns id t (active_of_invalidate h hactive).1 hactive
  hashed := fun id t h hactive => hsound.hashed id t (active_of_invalidate h hactive).1 hactive

theorem upsertPushToken_registers (sha256 : String → String) (hsound : db.Sound sha256) (device : DeviceId)
    (token : PushTokenIn) :
    Registers sha256 db (db.upsertPushToken sha256 device token)
      ⟨device, ⟨token.provider, token.tokenKind, sha256 token.tokenValue⟩, token.scopeKey⟩ := by
  unfold Db.upsertPushToken
  dsimp only
  split
  next hnone => exact registers_of_retire (placed_insert hsound rfl ⟨rfl, rfl⟩ rfl rfl hnone)
  next id existing hsome =>
    obtain ⟨hget, _, _, hactive⟩ := activeToken_some hsome
    exact registers_of_retire
      (placed_move hsound hsome rfl rfl rfl rfl (hsound.hashed id existing hget hactive))

/-- The route retires the activity's other tokens of the device before it stores its own. -/
theorem registers_of_retired {p : TokenId → DevicePushToken → Bool} {rid : TokenId}
    {row : DevicePushToken} (hplaced : Placed sha256 (db.invalidate p) db' r rid row)
    (hretired : ∀ id t, r.Supersedes t → ¬ r.Finds t → p id t = true)
    (hspared : ∀ id t, t.deviceId ≠ r.device → p id t = false) : Registers sha256 db db' r := by
  refine ⟨hplaced.below, ⟨rid, fun id t h hactive => ?_⟩, fun id t h hactive hdevice hfinds => ?_⟩
  · rw [hplaced.get] at h
    split at h
    next hid =>
      obtain rfl := Option.some.inj h
      exact .inl ⟨hid, hplaced.device, hplaced.finds, hplaced.hashed⟩
    next hid =>
      have hfinds := hplaced.alone id t hid h hactive
      obtain ⟨hget, hkept⟩ := active_of_invalidate h hactive
      refine .inr ⟨hid, hget, hfinds, fun hsupersedes => ?_⟩
      rw [hretired id t hsupersedes hfinds] at hkept
      cases hkept
  · have hget := invalidate_of_not h (hspared id t hdevice)
    have hid : id ≠ rid := fun hid => hfinds (hplaced.found t (hid ▸ hget))
    rw [hplaced.get, if_neg hid, hget]

theorem registerLiveActivity_registers (hsound : db.Sound sha256) (device : DeviceId)
    (payload : LiveActivityRegister) :
    Registers sha256 db (db.registerLiveActivity sha256 device payload)
      ⟨device, ⟨.apns, .liveActivityUpdate, sha256 payload.updateTokenHex⟩, payload.activityId⟩ := by
  have hspared : ∀ t, t.deviceId ≠ device →
      payload.retires device (sha256 payload.updateTokenHex) t = false :=
    fun t hdevice => decide_eq_false fun h => hdevice h.1
  have hretired : ∀ t, Registration.Supersedes ⟨device, ⟨.apns, .liveActivityUpdate,
        sha256 payload.updateTokenHex⟩, payload.activityId⟩ t →
      ¬ Registration.Finds ⟨device, ⟨.apns, .liveActivityUpdate,
        sha256 payload.updateTokenHex⟩, payload.activityId⟩ t →
      payload.retires device (sha256 payload.updateTokenHex) t = true := by
    rintro t ⟨hdevice, hprovider, hkind, hscope⟩ hfinds
    -- With the hash of the new token, the row would be the one that is found.
    refine decide_eq_true ⟨hdevice, hkind, hscope rfl, fun hhash => hfinds ⟨?_, hscope rfl⟩⟩
    exact congr (congrArg₂ TokenKey.mk hprovider hkind) hhash
  unfold Db.registerLiveActivity
  dsimp only
  split
  next hnone =>
    exact registers_of_retired (placed_insert (hsound.invalidate _) rfl ⟨rfl, rfl⟩ rfl rfl hnone)
      (fun _ => hretired) fun _ => hspared
  next id existing hsome =>
    obtain ⟨_, hkey, _⟩ := activeToken_some hsome
    have hhashed := (congrArg TokenKey.tokenHash hkey).symm
    exact registers_of_retired (placed_move (hsound.invalidate _) hsome rfl rfl rfl rfl hhashed)
      (fun _ => hretired) fun _ => hspared

/-! ### Steps -/

theorem Fades.of_invalidate (hsound : db.Sound sha256) (p : TokenId → DevicePushToken → Bool)
    (htokens : db'.tokens = (db.invalidate p).tokens) (hnext : db'.nextToken = db.nextToken) :
    Fades db db' where
  below := fun id t h => by
    rw [hnext]
    exact below_invalidate hsound.below (htokens ▸ h)
  active := fun _ _ h hactive => (active_of_invalidate (htokens ▸ h) hactive).1

/-- A step registers a token, or leaves no token active that was not. -/
theorem step_cases (hsound : db.Sound sha256) (h : step sha256 db l = some db') :
    (∃ r, l.registration sha256 = some r ∧ Registers sha256 db db' r ∧
      (r.key.tokenKind ≠ .standard → r.key.provider = .apns)) ∨
      l.registration sha256 = none ∧ Fades db db' := by
  cases l with
  | registerDevice device token =>
    simp only [step] at h
    split at h <;> cases h
    next hvalid =>
      cases token with
      | none => exact .inr ⟨rfl, hsound.below, fun _ _ h _ => h⟩
      | some token =>
        have hsound' : ({ db with devices := db.devices.set device ⟨false⟩ } : Db).Sound sha256 :=
          ⟨hsound.below, hsound.unique, hsound.apns, hsound.hashed⟩
        obtain ⟨hbelow, hactive, hothers⟩ :=
          upsertPushToken_registers sha256 hsound' device token
        refine .inl ⟨_, rfl, ⟨hbelow, hactive, hothers⟩, fun hkind => ?_⟩
        simp only [Option.all_some, PushTokenIn.valid, Bool.and_eq_true, Bool.not_eq_true',
          Bool.and_eq_false_imp, decide_eq_true_eq, decide_eq_false_iff_not, not_not] at hvalid
        cases hprovider : token.provider with
        | apns => rfl
        | fcm => exact absurd (hvalid.2 hprovider) hkind
  | registerLiveActivity device payload =>
    simp only [step] at h
    split at h <;> cases h
    exact .inl ⟨_, rfl, registerLiveActivity_registers hsound device payload, fun _ => rfl⟩
  | unregistered id =>
    cases h
    exact .inr ⟨rfl, .of_invalidate hsound _ rfl rfl⟩
  | deleteDevice device =>
    simp only [step] at h
    split at h <;> cases h
    exact .inr ⟨rfl, .of_invalidate hsound _ rfl rfl⟩
  | retire silent =>
    cases h
    exact .inr ⟨rfl, .of_invalidate hsound _ rfl rfl⟩

theorem Db.Sound.initial : Db.initial.Sound sha256 where
  below := fun _ _ h => (nomatch h)
  unique := fun _ _ _ _ h => (nomatch h)
  apns := fun _ _ h => (nomatch h)
  hashed := fun _ _ h => (nomatch h)

theorem Db.Sound.step (hsound : db.Sound sha256) (h : Devices.step sha256 db l = some db') :
    db'.Sound sha256 := by
  rcases step_cases hsound h with ⟨r, _, hregisters, hprovider⟩ | ⟨_, hfades⟩
  · obtain ⟨rid, hactive⟩ := hregisters.active
    refine ⟨hregisters.below, ?_, fun id t h htactive hkind => ?_, fun id t h htactive => ?_⟩
    · intro id id' t t' h h' htactive htactive' hkey hscope
      rcases hactive id t h htactive with ⟨hid, _, hfinds, _⟩ | ⟨_, hold, hother, _⟩
      · rcases hactive id' t' h' htactive' with ⟨hid', _⟩ | ⟨_, _, hother', _⟩
        · exact hid.trans hid'.symm
        · exact absurd ⟨hkey.symm.trans hfinds.1, hscope.symm.trans hfinds.2⟩ hother'
      · rcases hactive id' t' h' htactive' with ⟨_, _, hfinds', _⟩ | ⟨_, hold', _⟩
        · exact absurd ⟨hkey.trans hfinds'.1, hscope.trans hfinds'.2⟩ hother
        · exact hsound.unique id id' t t' hold hold' htactive htactive' hkey hscope
    · rcases hactive id t h htactive with ⟨_, _, hfinds, _⟩ | ⟨_, hold, _⟩
      · rw [hfinds.1] at hkind ⊢
        exact hprovider hkind
      · exact hsound.apns id t hold htactive hkind
    · rcases hactive id t h htactive with ⟨_, _, _, hhashed⟩ | ⟨_, hold, _⟩
      · exact hhashed
      · exact hsound.hashed id t hold htactive
  · exact ⟨hfades.below, fun id id' t t' h h' htactive htactive' =>
      hsound.unique id id' t t' (hfades.active id t h htactive) (hfades.active id' t' h' htactive')
        htactive htactive', fun id t h htactive =>
      hsound.apns id t (hfades.active id t h htactive) htactive, fun id t h htactive =>
      hsound.hashed id t (hfades.active id t h htactive) htactive⟩

/-! ### One token per purpose -/

theorem samePurpose_comm (t t' : DevicePushToken) : t.samePurpose t' = t'.samePurpose t := by
  have hiff : ∀ t t' : DevicePushToken, t.samePurpose t' = true → t'.samePurpose t = true := by
    intro t t' h
    simp only [DevicePushToken.samePurpose, Bool.and_eq_true, Bool.or_eq_true,
      decide_eq_true_eq] at h ⊢
    obtain ⟨⟨⟨hdevice, hprovider⟩, hkind⟩, hscope⟩ := h
    exact ⟨⟨⟨hdevice.symm, hprovider.symm⟩, hkind.symm⟩, hkind ▸ hscope.imp_right Eq.symm⟩
  exact Bool.eq_iff_iff.mpr ⟨hiff t t', hiff t' t⟩

/-- Active tokens of one purpose are one row. -/
def Db.OnePerPurpose (db : Db) : Prop :=
  ∀ id id' t t', db.tokens.get id = some t → db.tokens.get id' = some t' → t.status = .active →
    t'.status = .active → t.samePurpose t' = true → id = id'

theorem Db.OnePerPurpose.step (hone : db.OnePerPurpose) (hsound : db.Sound sha256)
    (h : Devices.step sha256 db l = some db') : db'.OnePerPurpose := by
  intro id id' t t' hget hget' htactive htactive' hpurpose
  rcases step_cases hsound h with ⟨r, _, hregisters, _⟩ | ⟨_, hfades⟩
  · obtain ⟨rid, hactive⟩ := hregisters.active
    rcases hactive id t hget htactive with ⟨hid, hdevice, hfinds, _⟩ | ⟨_, hold, _, hother⟩
    · rcases hactive id' t' hget' htactive' with ⟨hid', _⟩ | ⟨_, _, _, hother'⟩
      · exact hid.trans hid'.symm
      · rw [samePurpose_comm] at hpurpose
        exact absurd ((samePurpose_iff hdevice hfinds).mp hpurpose) hother'
    · rcases hactive id' t' hget' htactive' with ⟨_, hdevice', hfinds', _⟩ | ⟨_, hold', _⟩
      · exact absurd ((samePurpose_iff hdevice' hfinds').mp hpurpose) hother
      · exact hone id id' t t' hold hold' htactive htactive' hpurpose
  · exact hone id id' t t' (hfades.active id t hget htactive) (hfades.active id' t' hget' htactive')
      htactive htactive' hpurpose

/-- **One active token per purpose**: of a device and provider one standard and one push-to-start
token, and of a device and activity one update token. -/
theorem one_active_token_per_purpose {ls : List Label}
    (hrun : FreeRun (step sha256) Db.initial ls db) :
    (∀ kind, kind ≠ .liveActivityUpdate → ∀ device provider id id' t t',
      db.tokens.get id = some t → db.tokens.get id' = some t' →
      t.status = .active → t'.status = .active →
      t.deviceId = device ∧ t.key.provider = provider ∧ t.key.tokenKind = kind →
      t'.deviceId = device ∧ t'.key.provider = provider ∧ t'.key.tokenKind = kind → id = id') ∧
    ∀ device activity id id' t t',
      db.tokens.get id = some t → db.tokens.get id' = some t' →
      t.status = .active → t'.status = .active →
      t.deviceId = device ∧ t.key.tokenKind = .liveActivityUpdate ∧ t.scopeKey = activity →
      t'.deviceId = device ∧ t'.key.tokenKind = .liveActivityUpdate ∧ t'.scopeKey = activity →
        id = id' := by
  obtain ⟨hsound, hone⟩ := hrun.invariant (fun db => db.Sound sha256 ∧ db.OnePerPurpose)
    ⟨.initial, fun _ _ _ _ h => (nomatch h)⟩
    fun _ _ _ ⟨hsound, hone⟩ _ hstep => ⟨hsound.step hstep, hone.step hsound hstep⟩
  refine ⟨?_, ?_⟩
  · rintro kind hkind device provider id id' t t' hget hget' hactive hactive'
      ⟨hdevice, hprovider, hk⟩ ⟨hdevice', hprovider', hk'⟩
    refine hone id id' t t' hget hget' hactive hactive' ?_
    simp only [DevicePushToken.samePurpose, hdevice, hdevice', hprovider, hprovider', hk, hk', hkind,
      ne_eq, not_false_eq_true, decide_true, Bool.and_true, Bool.true_or]
  · rintro device activity id id' t t' hget hget' hactive hactive'
      ⟨hdevice, hkind, hscope⟩ ⟨hdevice', hkind', hscope'⟩
    have hapns := hsound.apns id t hget hactive (by rw [hkind]; exact nofun)
    have hapns' := hsound.apns id' t' hget' hactive' (by rw [hkind']; exact nofun)
    refine hone id id' t t' hget hget' hactive hactive' ?_
    simp only [DevicePushToken.samePurpose, hdevice, hdevice', hapns, hapns', hkind, hkind', hscope,
      hscope', decide_true, Bool.and_true, Bool.or_true]

/-- The digests of the tokens in the runs below. -/
def digest (token : String) : String :=
  if token = "80ab" then "6375ca2901d3d86c0cc52c85265389b679c72e4badbd6bb1ffc0f929799b10d0"
  else "ea16d29ae8dd60085f5f1136105a8bce3da9ff9028ea9a4d153dd53010e48fcc"

/-- A push-to-start token as the app registers it. -/
def pushToStart (tokenValue scopeKey : String) : PushTokenIn where
  provider := .apns
  tokenKind := .pushToStart
  tokenValue := tokenValue
  bundleId := none
  topic := none
  environment := some .production
  scopeKey := scopeKey

/-- A device's token rotates, and the first one comes back. -/
def rotated : List Label :=
  [.registerDevice ⟨1, "phone"⟩ (some (pushToStart "80ab" "")),
    .registerDevice ⟨1, "phone"⟩ (some (pushToStart "91cd" "ClassActivity")),
    .registerDevice ⟨1, "phone"⟩ (some (pushToStart "80ab" "ClassActivity"))]

/-- After the rotations one of the three rows is active. -/
theorem one_active_token_of_rotations : ∃ db, FreeRun (step digest) Db.initial rotated db ∧
    (db.tokens.get 2).map (·.status) = some .active ∧
    ∀ id t, db.tokens.get id = some t → t.status = .active →
      t.deviceId = ⟨1, "phone"⟩ ∧ t.key.provider = .apns ∧ t.key.tokenKind = .pushToStart →
        id = 2 := by
  have hrun : ∃ db, FreeRun (step digest) Db.initial rotated db ∧
      exec (step digest) Db.initial rotated = some db := ⟨_, run_of_exec rfl, rfl⟩
  obtain ⟨db, hrun, hexec⟩ := hrun
  cases hexec
  refine ⟨_, hrun, rfl, fun id t hget hactive hpurpose => ?_⟩
  exact (one_active_token_per_purpose hrun).1 .pushToStart nofun ⟨1, "phone"⟩ .apns id 2 t _ hget
    rfl hactive rfl hpurpose ⟨rfl, rfl, rfl⟩

/-! ### The owner of a token -/

/-- The rows, with the device that has registered each token last. -/
structure Registry where
  db : Db
  owner : TokenKey → Option DeviceId

def Registry.initial : Registry := ⟨Db.initial, fun _ => none⟩

def Registry.step (sha256 : String → String) (s : Registry) (l : Label) : Option Registry :=
  (Devices.step sha256 s.db l).map fun db =>
    { db
      owner := match l.registration sha256 with
        | some r => Function.update s.owner r.key (some r.device)
        | none => s.owner }

/-- A token's value is active on no device but the one that registered it last. -/
def Registry.Owned (sha256 : String → String) (s : Registry) : Prop :=
  ∀ id t, s.db.tokens.get id = some t → t.status = .active →
    s.owner ⟨t.key.provider, t.key.tokenKind, sha256 t.tokenValue⟩ = some t.deviceId

/-- Where another device has the token, the registration names the scope it has it under. -/
def Registry.NamesScope (sha256 : String → String) (s : Registry) (l : Label) : Prop :=
  ∀ r, l.registration sha256 = some r → ∀ id t, s.db.tokens.get id = some t → t.status = .active →
    t.key = r.key → t.deviceId ≠ r.device → t.scopeKey = r.scopeKey

/-- An active row's value has the row's key. -/
theorem owned_iff_key {s : Registry} (hsound : s.db.Sound sha256) :
    s.Owned sha256 ↔ ∀ id t, s.db.tokens.get id = some t → t.status = .active →
      s.owner t.key = some t.deviceId := by
  refine forall₄_congr fun id t hget hactive => ?_
  rw [hsound.hashed id t hget hactive]

/-- What a registration leaves active is the registering device's, exactly where it finds the
token's rows on other devices. -/
theorem owned_iff {s s' : Registry} (hsound : s.db.Sound sha256) (howned : s.Owned sha256)
    (h : s.step sha256 l = some s') : s'.Owned sha256 ↔ s.NamesScope sha256 l := by
  obtain ⟨db', hstep, rfl⟩ := Option.map_eq_some_iff.mp h
  rw [owned_iff_key hsound] at howned
  rw [owned_iff_key (hsound.step hstep)]
  rcases step_cases hsound hstep with ⟨r, hr, hregisters, _⟩ | ⟨hr, hfades⟩
  · rw [hr]
    constructor
    · intro howned' r' hr' id t hget hactive hkey hdevice
      obtain rfl := Option.some.inj (hr.symm.trans hr')
      by_contra hscope
      -- The row stays active on its device, which did not register last.
      have hkept := hregisters.others id t hget hactive hdevice fun hfinds => hscope hfinds.2
      have howner := howned' id t hkept hactive
      rw [hkey] at howner
      have hsame : Function.update s.owner r.key (some r.device) r.key = some t.deviceId := howner
      rw [Function.update_self] at hsame
      exact hdevice (Option.some.inj hsame).symm
    · intro hnames id t hget hactive
      obtain ⟨rid, hrows⟩ := hregisters.active
      show Function.update s.owner r.key (some r.device) t.key = some t.deviceId
      rcases hrows id t hget hactive with ⟨_, hdevice, hfinds, _⟩ | ⟨_, hold, hother, _⟩
      · rw [hfinds.1, Function.update_self, hdevice]
      · by_cases hkey : t.key = r.key
        · have hdevice : t.deviceId = r.device := by
            by_contra hdevice
            exact hother ⟨hkey, hnames r hr id t hold hactive hkey hdevice⟩
          rw [hkey, Function.update_self, hdevice]
        · rw [Function.update_of_ne hkey]
          exact howned id t hold hactive
  · rw [hr]
    refine ⟨fun _ r hr' => ?_, fun _ id t hget hactive => ?_⟩
    · rw [hr] at hr'
      cases hr'
    · exact howned id t (hfades.active id t hget hactive) hactive

/-- **A token reaches one device**, the one that registered it last, in every state of exactly
the runs in which a registration names the scope another device has the token under. -/
theorem token_reaches_one_device {ls : List Label} {s : Registry} :
    (FreeRun (Registry.step sha256) Registry.initial ls s ∧
      ∀ ls₁, ls₁ <+: ls → ∀ u, exec (Registry.step sha256) Registry.initial ls₁ = some u → u.Owned sha256) ↔
    Run (Registry.step sha256) (Registry.NamesScope sha256) Registry.initial ls s := by
  refine always_iff (fun s => s.db.Sound sha256) (Registry.Owned sha256) .initial (fun _ _ h => (nomatch h))
    (fun s l s' hsound h => ?_) fun s l s' hsound howned h => owned_iff hsound howned h
  obtain ⟨db', hstep, rfl⟩ := Option.map_eq_some_iff.mp h
  exact hsound.step hstep

/-- The token of an old phone comes with a scope from the phone it is restored to. -/
def restored : List Label :=
  [.registerDevice ⟨1, "old"⟩ (some (pushToStart "80ab" "")),
    .registerDevice ⟨2, "new"⟩ (some (pushToStart "80ab" "ClassActivity"))]

/-- Both device rows have the token active. -/
theorem rescoped_token_stays :
    ∃ s, FreeRun (Registry.step digest) Registry.initial restored s ∧
      (s.db.tokens.get 0).map (fun t => (t.deviceId, t.tokenValue, t.status)) =
        some (⟨1, "old"⟩, "80ab", .active) ∧
      (s.db.tokens.get 1).map (fun t => (t.deviceId, t.tokenValue, t.status)) =
        some (⟨2, "new"⟩, "80ab", .active) ∧
      ¬ s.Owned digest := by
  refine ⟨_, run_of_exec rfl, rfl, rfl, fun howned => ?_⟩
  have howner := howned 0 _ rfl rfl
  exact absurd howner (by decide)

end TigerDuck.Devices
