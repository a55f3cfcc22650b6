import Mathlib.Data.List.Nodup
import Mathlib.Data.List.Basic
import Mathlib.Data.List.Perm.Subperm

/-!
# Keyed tables

A table is a finite list of rows under pairwise distinct keys, in the order they were
stored, with the statements a relational program sends it: `DELETE … WHERE`
(`deleteWhere`), `UPDATE` (`modify`), `INSERT … ON CONFLICT DO UPDATE` (`upsert`) and
`SELECT … WHERE` (`select`).

Every statement comes with the lemma that says what a lookup answers after it
(`get_deleteWhere`, `get_modify`, `get_upsert`), so that a proof about a program reasons
with `get` alone and never opens the list.
-/

namespace Relational

universe u v w

/-- Rows under pairwise distinct keys, in the order they were stored. -/
structure Table (κ : Type u) (α : Type v) where
  /-- The stored rows, each with its key. -/
  rows : List (κ × α)
  /-- No key is stored twice. -/
  keys_nodup : (rows.map Prod.fst).Nodup

namespace Table

variable {κ : Type u} {α : Type v}

/-- The table without rows. -/
def empty : Table κ α := ⟨[], List.nodup_nil⟩

instance : Inhabited (Table κ α) := ⟨empty⟩

/-- The stored keys, oldest row first. -/
def keys (t : Table κ α) : List κ := t.rows.map Prod.fst

/-- `SELECT … WHERE`: the rows that satisfy `p`, oldest first. -/
def select (t : Table κ α) (p : κ → α → Bool) : List (κ × α) :=
  t.rows.filter fun r => p r.1 r.2

theorem select_keys_nodup (t : Table κ α) (p : κ → α → Bool) :
    ((t.select p).map Prod.fst).Nodup :=
  t.keys_nodup.sublist (List.filter_sublist.map Prod.fst)

/-- `DELETE … WHERE`: the table without the rows that satisfy `p`. -/
def deleteWhere (t : Table κ α) (p : κ → α → Bool) : Table κ α where
  rows := t.rows.filter fun r => !p r.1 r.2
  keys_nodup := t.keys_nodup.sublist (List.filter_sublist.map Prod.fst)

/-- `UPDATE`: every row rewritten by `f`, under its old key. -/
def modify (t : Table κ α) (f : κ → α → α) : Table κ α where
  rows := t.rows.map fun r => (r.1, f r.1 r.2)
  keys_nodup := by simpa [List.map_map, Function.comp_def] using t.keys_nodup

/-- An update changes nothing exactly when it rewrites every stored row to itself. -/
theorem modify_eq_self_iff (t : Table κ α) (f : κ → α → α) :
    t.modify f = t ↔ ∀ r ∈ t.rows, f r.1 r.2 = r.2 := by
  obtain ⟨rows, hnodup⟩ := t
  have hid : rows.map (fun r => (r.1, f r.1 r.2)) = rows ↔
      rows.map (fun r => (r.1, f r.1 r.2)) = rows.map id := by rw [List.map_id]
  simp only [modify, mk.injEq]
  rw [hid, List.map_inj_left]
  simp [Prod.ext_iff]

/-- Two rewrites, one after the other. -/
theorem modify_modify (t : Table κ α) (f g : κ → α → α) :
    (t.modify f).modify g = t.modify fun k a => g k (f k a) := by
  simp [modify, List.map_map, Function.comp_def]

/-- `UPDATE … WHERE`: the rows that `f` rewrites, and no others. -/
def update (t : Table κ α) (f : κ → α → Option α) : Table κ α := t.modify fun k a => (f k a).getD a

/-- The rows an update rewrites, as its `RETURNING` lists them. -/
def updated (t : Table κ α) (f : κ → α → Option α) : List (κ × α) :=
  t.rows.filterMap fun r => (f r.1 r.2).map (r.1, ·)

section Lookup

variable [DecidableEq κ]

/-- The row stored under `k`. -/
def get (t : Table κ α) (k : κ) : Option α := t.rows.lookup k

/-- `INSERT … ON CONFLICT DO UPDATE`: rewrite the row of `k` with `f`, or store `a` as
the newest row when there is none. -/
def upsert (t : Table κ α) (k : κ) (a : α) (f : α → α) : Table κ α :=
  if h : k ∈ t.keys then t.modify fun k' b => if k' = k then f b else b
  else
    { rows := t.rows ++ [(k, a)]
      keys_nodup := by
        rw [List.map_append, List.nodup_append]
        refine ⟨t.keys_nodup, by simp, ?_⟩
        intro b hb c hc
        have hc' : c = k := by simpa using hc
        exact fun hbc => h (hc' ▸ hbc ▸ hb) }

/-- Store `a` under `k`, over the row stored there. -/
def set (t : Table κ α) (k : κ) (a : α) : Table κ α := t.upsert k a fun _ => a

/-- A lookup finds exactly the stored rows. -/
theorem get_eq_some_iff (t : Table κ α) (k : κ) (a : α) :
    t.get k = some a ↔ (k, a) ∈ t.rows := by
  obtain ⟨rows, hnodup⟩ := t
  simp only [get]
  induction rows with
  | nil => simp
  | cons r rest ih =>
    obtain ⟨k₀, a₀⟩ := r
    rw [List.map_cons, List.nodup_cons] at hnodup
    obtain ⟨hfresh, hrest⟩ := hnodup
    rw [List.lookup_cons]
    by_cases hk : k = k₀
    · subst hk
      have hnot : (k, a) ∉ rest := fun hmem =>
        hfresh (List.mem_map.mpr ⟨(k, a), hmem, rfl⟩)
      simp [hnot, eq_comm]
    · have hbeq : (k == k₀) = false := by simpa using hk
      simp [hbeq, hk, ih hrest]

/-- Rewrites that agree on the stored rows. -/
theorem modify_congr {t : Table κ α} {f g : κ → α → α}
    (h : ∀ k a, t.get k = some a → f k a = g k a) : t.modify f = t.modify g := by
  simp only [modify, mk.injEq]
  exact List.map_congr_left fun r hr => by rw [h r.1 r.2 ((get_eq_some_iff t r.1 r.2).mpr hr)]

/-- A key without a row is not among the stored keys. -/
theorem get_eq_none_iff (t : Table κ α) (k : κ) : t.get k = none ↔ k ∉ t.keys := by
  rw [← not_iff_not, ← ne_eq, Option.ne_none_iff_exists', not_not]
  simp [get_eq_some_iff, keys]

/-- A key is stored exactly when a lookup finds a row. -/
theorem mem_keys_iff (t : Table κ α) (k : κ) : k ∈ t.keys ↔ (t.get k).isSome := by
  rw [← Option.ne_none_iff_isSome, ne_eq, get_eq_none_iff, not_not]

/-- `INSERT … SELECT … ON CONFLICT DO NOTHING`: store what `g` makes of the rows of `s`,
under the keys the table does not have. -/
def insertFrom {β : Type w} (t : Table κ α) (s : Table κ β) (g : κ → β → Option α) : Table κ α :=
  s.rows.foldl (fun t r => (g r.1 r.2).elim t fun a => t.upsert r.1 a id) t

/-- `INSERT … SELECT … ON CONFLICT DO UPDATE`: store what `g` makes of the rows of `s`,
over the rows the table has under their keys. -/
def overwriteFrom {β : Type w} (t : Table κ α) (s : Table κ β) (g : κ → β → Option α) :
    Table κ α :=
  (t.deleteWhere fun k _ => ((s.get k).bind (g k)).isSome).insertFrom s g

/-- What a transaction has written replaces or, where it has deleted a row, takes away what the
table has. -/
def applyWrites (t : Table κ α) (w : Table κ (Option α)) : Table κ α :=
  (t.deleteWhere fun k _ => (w.get k).isSome).insertFrom w fun _ a => a

/-- One upsert per listed key, in order. -/
def upsertEach (t : Table κ α) (ks : List κ) (a : κ → α) (f : κ → α → α) : Table κ α :=
  ks.foldl (fun t k => t.upsert k (a k) (f k)) t

/-- Two tables' lookups agree at a key once they find the same rows there. -/
theorem get_ext {t t' : Table κ α} {k : κ} (h : ∀ a, (k, a) ∈ t.rows ↔ (k, a) ∈ t'.rows) :
    t.get k = t'.get k := by
  ext a
  rw [get_eq_some_iff, get_eq_some_iff, h]

@[simp]
theorem get_empty (k : κ) : (empty : Table κ α).get k = none := rfl

/-- What the rows give together, when one key's row alone gives anything. -/
theorem flatMap_rows_of_only (t : Table κ α) {β : Type w} {g : κ × α → List β} (k : κ)
    (h : ∀ k' a, k' ≠ k → g (k', a) = []) :
    t.rows.flatMap g = (t.get k).elim [] fun a => g (k, a) := by
  obtain ⟨rows, hnodup⟩ := t
  show rows.flatMap g = (rows.lookup k).elim [] fun a => g (k, a)
  induction rows with
  | nil => rfl
  | cons row rows ih =>
    obtain ⟨k', a⟩ := row
    obtain ⟨hfresh, hnodup⟩ := List.nodup_cons.mp hnodup
    rw [List.flatMap_cons, ih hnodup, List.lookup_cons]
    by_cases hk : k' = k
    · subst hk
      have hnone : rows.lookup k' = none := by
        rw [List.lookup_eq_none_iff]
        rintro ⟨k'', b⟩ hmem
        rw [bne_iff_ne]
        rintro rfl
        exact hfresh (List.mem_map.mpr ⟨_, hmem, rfl⟩)
      simp [hnone]
    · have hne : (k == k') = false := beq_eq_false_iff_ne.mpr (Ne.symm hk)
      simp [h k' a hk, hne]

/-- A row survives a deletion exactly when the predicate does not pick it. -/
@[simp]
theorem get_deleteWhere (t : Table κ α) (p : κ → α → Bool) (k : κ) :
    (t.deleteWhere p).get k = (t.get k).filter fun a => !p k a := by
  ext a
  simp [get_eq_some_iff, deleteWhere, Option.filter_eq_some_iff]

/-- A deletion of the rows of some keys. -/
theorem get_deleteWhere_key (t : Table κ α) (p : κ → Prop) [DecidablePred p] (k : κ) :
    (t.deleteWhere fun k _ => p k).get k = if p k then none else t.get k := by
  rw [get_deleteWhere]
  by_cases hk : p k
  · cases t.get k <;> simp [hk]
  · cases t.get k <;> simp [hk]

/-- An update rewrites the row of every key in place. -/
@[simp]
theorem get_modify (t : Table κ α) (f : κ → α → α) (k : κ) :
    (t.modify f).get k = (t.get k).map (f k) := by
  ext a
  simp only [get_eq_some_iff, modify, List.mem_map, Option.map_eq_some_iff]
  constructor
  · rintro ⟨⟨k', b⟩, hmem, heq⟩
    obtain ⟨rfl, rfl⟩ := Prod.mk.injEq .. ▸ heq
    exact ⟨b, hmem, rfl⟩
  · rintro ⟨b, hmem, rfl⟩
    exact ⟨(k, b), hmem, rfl⟩

/-- A row that an update does not pick stays. -/
@[simp]
theorem get_update (t : Table κ α) (f : κ → α → Option α) (k : κ) :
    (t.update f).get k = (t.get k).map fun a => (f k a).getD a := by
  rw [update, get_modify]

/-- `RETURNING` lists what the update made of the rows it picked. -/
theorem mem_updated_iff {t : Table κ α} {f : κ → α → Option α} {k : κ} {b : α} :
    (k, b) ∈ t.updated f ↔ ∃ a, t.get k = some a ∧ f k a = some b := by
  simp only [updated, List.mem_filterMap, Option.map_eq_some_iff, Prod.mk.injEq, get_eq_some_iff]
  constructor
  · rintro ⟨⟨k', a⟩, hmem, b', hf, rfl, rfl⟩
    exact ⟨a, hmem, hf⟩
  · rintro ⟨a, hmem, hf⟩
    exact ⟨(k, a), hmem, b, hf, rfl, rfl⟩

/-- An update that picks no row changes nothing and returns nothing. -/
theorem update_eq_self {t : Table κ α} {f : κ → α → Option α}
    (h : ∀ k a, t.get k = some a → f k a = none) : t.update f = t ∧ t.updated f = [] := by
  have hnone : ∀ r ∈ t.rows, f r.1 r.2 = none := fun r hr =>
    h r.1 r.2 ((get_eq_some_iff t r.1 r.2).mpr hr)
  constructor
  · exact (modify_eq_self_iff t _).mpr fun r hr => by rw [hnone r hr, Option.getD_none]
  · exact List.filterMap_eq_nil_iff.mpr fun r hr => by rw [hnone r hr, Option.map_none]

/-- After an upsert the key holds the rewritten row, or the new one when it had none. -/
theorem get_upsert_self (t : Table κ α) (k : κ) (a : α) (f : α → α) :
    (t.upsert k a f).get k = some ((t.get k).elim a f) := by
  unfold upsert
  split
  next hmem =>
    obtain ⟨b, hb⟩ := Option.isSome_iff_exists.mp ((t.mem_keys_iff k).mp hmem)
    simp [hb]
  next hmem =>
    rw [(t.get_eq_none_iff k).mpr hmem, get_eq_some_iff]
    simp

/-- An upsert leaves the other keys alone. -/
theorem get_upsert_of_ne (t : Table κ α) {k k' : κ} (a : α) (f : α → α) (h : k' ≠ k) :
    (t.upsert k a f).get k' = t.get k' := by
  unfold upsert
  split
  · simp [h]
  · apply get_ext
    intro b
    simp [h]

/-- What a lookup answers after an upsert. -/
@[simp]
theorem get_upsert (t : Table κ α) (k k' : κ) (a : α) (f : α → α) :
    (t.upsert k a f).get k' = if k' = k then some ((t.get k).elim a f) else t.get k' := by
  by_cases h : k' = k
  · subst h
    simpa using t.get_upsert_self k' a f
  · simpa [h] using t.get_upsert_of_ne a f h

/-- What a lookup answers after a store. -/
@[simp]
theorem get_set (t : Table κ α) (k k' : κ) (a : α) :
    (t.set k a).get k' = if k' = k then some a else t.get k' := by
  rw [set, get_upsert]
  cases t.get k <;> rfl

/-- A rewrite and a new row it leaves alone, in either order. -/
theorem modify_set_comm {t : Table κ α} {k : κ} {a : α} {f : κ → α → α} (hfresh : t.get k = none)
    (hf : f k a = a) : (t.modify f).set k a = (t.set k a).modify f := by
  have hnot : k ∉ t.keys := (get_eq_none_iff t k).mp hfresh
  have hnot' : k ∉ (t.modify f).keys := by
    rw [← get_eq_none_iff, get_modify, hfresh]
    rfl
  unfold set upsert
  rw [dif_neg hnot, dif_neg hnot']
  simp [modify, hf]

/-- An inserting selection keeps what the table has and adds the rest. -/
@[simp]
theorem get_insertFrom {β : Type w} (t : Table κ α) (s : Table κ β) (g : κ → β → Option α)
    (k : κ) : (t.insertFrom s g).get k = (t.get k).or ((s.get k).bind (g k)) := by
  obtain ⟨rows, hnodup⟩ := s
  simp only [insertFrom, get]
  induction rows generalizing t with
  | nil => simp
  | cons r rest ih =>
    obtain ⟨k₀, b⟩ := r
    rw [List.map_cons, List.nodup_cons] at hnodup
    obtain ⟨hfresh, hrest⟩ := hnodup
    rw [List.foldl_cons, ih _ hrest, List.lookup_cons]
    by_cases hk : k = k₀
    · subst hk
      have hnone : rest.lookup k = none :=
        List.lookup_eq_none_iff.mpr fun p hp => by
          have hne : k ≠ p.1 := fun h => hfresh (List.mem_map.mpr ⟨p, hp, h.symm⟩)
          simpa using hne
      rw [hnone]
      cases hg : g k b with
      | none => simp [hg]
      | some a =>
        have hget := get_upsert t k k a id
        rw [get, if_pos rfl] at hget
        simp only [Option.elim_some, hget, BEq.rfl, Option.bind_some, Option.bind_none, hg,
          Option.or_none]
        change some ((t.get k).elim a id) = (t.get k).or (some a)
        cases t.get k <;> rfl
    · have hbeq : (k == k₀) = false := by simpa using hk
      rw [hbeq]
      cases hg : g k₀ b with
      | none => rfl
      | some a =>
        have hget := get_upsert t k₀ k a id
        rw [get, if_neg hk] at hget
        simp only [Option.elim_some, hget]
        rfl

/-- An overwriting selection puts its rows over the table's. -/
@[simp]
theorem get_overwriteFrom {β : Type w} (t : Table κ α) (s : Table κ β) (g : κ → β → Option α)
    (k : κ) : (t.overwriteFrom s g).get k = ((s.get k).bind (g k)).or (t.get k) := by
  rw [overwriteFrom, get_insertFrom, get_deleteWhere]
  cases h : (s.get k).bind (g k) with
  | none => cases t.get k <;> simp [Option.filter]
  | some a => cases t.get k <;> simp [Option.filter]

/-- The writes of a transaction are read before what the table has. -/
@[simp]
theorem get_applyWrites (t : Table κ α) (w : Table κ (Option α)) (k : κ) :
    (t.applyWrites w).get k = (w.get k).getD (t.get k) := by
  rw [applyWrites, get_insertFrom, get_deleteWhere]
  cases w.get k with
  | none => cases t.get k <;> simp [Option.filter]
  | some a => cases t.get k <;> simp [Option.filter]

/-- Upserts of listed keys rewrite each listed key once, when rewriting a row they have
written changes nothing more. -/
theorem get_upsertEach (t : Table κ α) (ks : List κ) (a : κ → α) (f : κ → α → α) (k : κ)
    (hstable : ∀ o : Option α, f k (o.elim (a k) (f k)) = o.elim (a k) (f k)) :
    (t.upsertEach ks a f).get k =
      if k ∈ ks then some ((t.get k).elim (a k) (f k)) else t.get k := by
  unfold upsertEach
  induction ks generalizing t with
  | nil => simp
  | cons k₀ rest ih =>
    rw [List.foldl_cons, ih, get_upsert]
    by_cases hk : k = k₀
    · subst hk
      simp [hstable]
    · simp [hk]

/-- Upserts of one row under listed keys. -/
theorem get_upsertEach_const (t : Table κ α) (ks : List κ) (a : α) (k : κ) :
    (t.upsertEach ks (fun _ => a) fun _ _ => a).get k = if k ∈ ks then some a else t.get k := by
  rw [get_upsertEach _ _ _ _ _ fun o => by cases o <;> rfl]
  cases t.get k <;> rfl

/-- A selection lists the stored rows that satisfy its predicate. -/
theorem mem_select_iff (t : Table κ α) (p : κ → α → Bool) (k : κ) (a : α) :
    (k, a) ∈ t.select p ↔ t.get k = some a ∧ p k a = true := by
  simp [select, get_eq_some_iff]

/-- What a query picks is still there after an update and a deletion that leave it alone. -/
theorem select_deleteWhere_modify {t : Table κ α} {f : κ → α → α} {d q : κ → α → Bool}
    (hq : ∀ k a, q k (f k a) = q k a)
    (h : ∀ k a, t.get k = some a → q k a = true → f k a = a ∧ d k a = false) :
    ((t.modify f).deleteWhere d).select q = t.select q := by
  simp only [select, deleteWhere, modify, List.filter_map, List.filter_filter, Function.comp_def, hq]
  have hpicked : ∀ r ∈ t.rows, (q r.1 r.2 && !d r.1 (f r.1 r.2)) = q r.1 r.2 := by
    intro r hr
    cases hqr : q r.1 r.2 with
    | false => rfl
    | true =>
      obtain ⟨hf, hd⟩ := h r.1 r.2 ((get_eq_some_iff t _ _).mpr hr) hqr
      rw [hf, hd]
      rfl
  rw [List.filter_congr hpicked]
  conv_rhs => rw [← List.map_id (t.rows.filter fun r => q r.1 r.2)]
  refine List.map_congr_left fun r hr => ?_
  obtain ⟨hr, hqr⟩ := List.mem_filter.mp hr
  rw [(h r.1 r.2 ((get_eq_some_iff t _ _).mpr hr) hqr).1]
  rfl

/-- A query picks at most as many rows as the keys it may pick. -/
theorem select_length_le {t : Table κ α} {p : κ → α → Bool} (ks : List κ)
    (h : ∀ k a, t.get k = some a → p k a = true → k ∈ ks) : (t.select p).length ≤ ks.length := by
  have hsubset : (t.select p).map Prod.fst ⊆ ks := by
    intro k hk
    obtain ⟨⟨_, a⟩, hmem, rfl⟩ := List.mem_map.mp hk
    obtain ⟨hget, hp⟩ := (mem_select_iff t p _ a).mp hmem
    exact h _ a hget hp
  rw [← List.length_map Prod.fst]
  exact ((t.select_keys_nodup p).subperm hsubset).length_le

/-! ### What holds of every row -/

/-- Every stored row satisfies `p`. -/
def Forall (t : Table κ α) (p : κ → α → Prop) : Prop := ∀ k a, t.get k = some a → p k a

namespace Forall

variable {t : Table κ α} {p : κ → α → Prop}

theorem empty : (Table.empty : Table κ α).Forall p := fun _ _ h => (nomatch h)

theorem mono {q : κ → α → Prop} (h : t.Forall p) (himp : ∀ k a, p k a → q k a) : t.Forall q :=
  fun k a hget => himp k a (h k a hget)

theorem deleteWhere (h : t.Forall p) (q : κ → α → Bool) : (t.deleteWhere q).Forall p := by
  intro k a hget
  rw [get_deleteWhere, Option.filter_eq_some_iff] at hget
  exact h k a hget.1

theorem modify (h : t.Forall p) {f : κ → α → α} (hf : ∀ k a, t.get k = some a → p k a → p k (f k a)) :
    (t.modify f).Forall p := by
  intro k a hget
  rw [get_modify] at hget
  obtain ⟨b, hb, rfl⟩ := Option.map_eq_some_iff.mp hget
  exact hf k b hb (h k b hb)

theorem upsert (h : t.Forall p) {k : κ} {a : α} {f : α → α} (ha : p k a)
    (hf : ∀ b, p k b → p k (f b)) : (t.upsert k a f).Forall p := by
  intro k' b hget
  rw [get_upsert] at hget
  split at hget
  next hk =>
    subst hk
    obtain rfl := Option.some.inj hget
    cases hold : t.get k' with
    | none => exact ha
    | some c => exact hf c (h k' c hold)
  next => exact h k' b hget

theorem set (h : t.Forall p) {k : κ} {a : α} (ha : p k a) : (t.set k a).Forall p :=
  h.upsert ha fun _ _ => ha

theorem insertFrom {β : Type w} (h : t.Forall p) {s : Table κ β} {g : κ → β → Option α}
    (hg : ∀ k b a, g k b = some a → p k a) : (t.insertFrom s g).Forall p := by
  intro k a hget
  rw [get_insertFrom, Option.or_eq_some_iff] at hget
  rcases hget with hold | ⟨_, hnew⟩
  · exact h k a hold
  · obtain ⟨b, _, hb⟩ := Option.bind_eq_some_iff.mp hnew
    exact hg k b a hb

theorem overwriteFrom {β : Type w} (h : t.Forall p) {s : Table κ β} {g : κ → β → Option α}
    (hg : ∀ k b a, g k b = some a → p k a) : (t.overwriteFrom s g).Forall p :=
  (h.deleteWhere _).insertFrom hg

theorem upsertEach (h : t.Forall p) {a : κ → α} {f : κ → α → α} (ha : ∀ k, p k (a k))
    (hf : ∀ k b, p k b → p k (f k b)) (ks : List κ) : (t.upsertEach ks a f).Forall p := by
  unfold Table.upsertEach
  induction ks generalizing t with
  | nil => exact h
  | cons k rest ih => exact ih (h.upsert (ha k) (hf k))

end Forall

end Lookup

end Table

/-! ### What a transaction writes -/

/-- A column a transaction writes if it has changed it. -/
def writeColumn {α : Type} [DecidableEq α] (before after current : α) : α :=
  if after = before then current else after

theorem writeColumn_self {α : Type} [DecidableEq α] (before after : α) :
    writeColumn before after before = after := by
  unfold writeColumn
  split
  next h => exact h.symm
  next => rfl

end Relational
