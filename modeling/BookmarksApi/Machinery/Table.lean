import Mathlib.Data.List.Nodup
import Mathlib.Data.List.Perm.Basic

/-!
# Machinery/Table — a table of rows under a primary key

A table is the list of its rows with the key's uniqueness carried along, so a lookup by key is a
membership statement (`get?_eq_some`) and every statement of a store — insert, overwrite, delete —
is read through what it does to lookups.
-/

/-- Rows no two of which have the same key. -/
structure Table {α κ : Type*} (key : α → κ) where
  rows : List α
  nodup : (rows.map key).Nodup

namespace Table

variable {α κ : Type*} {key : α → κ}

@[ext] theorem ext {t u : Table key} (h : t.rows = u.rows) : t = u := by
  obtain ⟨r, _⟩ := t
  obtain ⟨s, _⟩ := u
  obtain rfl : r = s := h
  rfl

instance [DecidableEq α] : DecidableEq (Table key) := fun t u =>
  decidable_of_iff (t.rows = u.rows) ⟨ext, congrArg rows⟩

/-- The table without rows. -/
def empty : Table key := ⟨[], List.nodup_nil⟩

/-- **The key determines the row.** -/
theorem eq_of_key (t : Table key) {a b : α} (ha : a ∈ t.rows) (hb : b ∈ t.rows)
    (h : key a = key b) : a = b :=
  List.inj_on_of_nodup_map t.nodup ha hb h

theorem rows_nodup (t : Table key) : t.rows.Nodup := t.nodup.of_map key

/-- Deleting the rows that fail a test. -/
def filter (t : Table key) (p : α → Bool) : Table key :=
  ⟨t.rows.filter p, t.nodup.sublist (List.filter_sublist.map key)⟩

@[simp] theorem rows_filter (t : Table key) (p : α → Bool) :
    (t.filter p).rows = t.rows.filter p := rfl

/-- Rewriting every row under its key. -/
def mapRows {β : Type*} {key' : β → κ} (t : Table key) (f : α → β) (hf : ∀ a, key' (f a) = key a) :
    Table key' :=
  ⟨t.rows.map f, by
    rw [List.map_map]
    exact (List.map_congr_left fun a _ => hf a).symm ▸ t.nodup⟩

@[simp] theorem rows_mapRows {β : Type*} {key' : β → κ} (t : Table key) (f : α → β)
    (hf : ∀ a, key' (f a) = key a) : (t.mapRows f hf).rows = t.rows.map f := rfl

variable [DecidableEq κ]

/-- The row with a given key. -/
def get? (t : Table key) (k : κ) : Option α := t.rows.find? fun a => key a = k

/-- **A lookup is a membership statement.** -/
theorem get?_eq_some {t : Table key} {k : κ} {a : α} :
    t.get? k = some a ↔ a ∈ t.rows ∧ key a = k := by
  constructor
  · intro h
    exact ⟨List.mem_of_find?_eq_some h, by simpa using List.find?_some h⟩
  · rintro ⟨ha, rfl⟩
    cases hb : t.get? (key a) with
    | none => exact absurd (by simp) (List.find?_eq_none.mp hb a ha)
    | some b =>
      have hk : key b = key a := by simpa using List.find?_some hb
      rw [t.eq_of_key (List.mem_of_find?_eq_some hb) ha hk]

theorem get?_key {t : Table key} {a : α} (ha : a ∈ t.rows) : t.get? (key a) = some a :=
  get?_eq_some.mpr ⟨ha, rfl⟩

theorem get?_eq_none {t : Table key} {k : κ} : t.get? k = none ↔ ∀ a ∈ t.rows, key a ≠ k := by
  simp [get?, List.find?_eq_none]

/-- Two lookups agree once they find the same rows. -/
theorem get?_congr {t u : Table key} {k : κ}
    (h : ∀ a, key a = k → (a ∈ t.rows ↔ a ∈ u.rows)) : t.get? k = u.get? k := by
  refine Option.ext fun a => ?_
  rw [get?_eq_some, get?_eq_some]
  exact and_congr_left (h a)

/-! ## Statements -/

/-- `INSERT`: refused when the key is taken. -/
def insert? (t : Table key) (a : α) : Option (Table key) :=
  if h : key a ∈ t.rows.map key then none
  else some ⟨t.rows ++ [a], by
    rw [List.map_append, List.nodup_append]
    refine ⟨t.nodup, List.nodup_singleton _, ?_⟩
    rintro k hk _ hk' rfl
    obtain rfl : k = key a := by simpa using hk'
    exact h hk⟩

theorem insert?_eq_none {t : Table key} {a : α} :
    t.insert? a = none ↔ ∃ b ∈ t.rows, key b = key a := by
  simp [insert?]

theorem rows_of_insert? {t u : Table key} {a : α} (h : t.insert? a = some u) :
    u.rows = t.rows ++ [a] := by
  unfold insert? at h
  split at h
  · cases h
  · cases h; rfl

/-- **A row with a new key is inserted.** -/
theorem insert?_of_fresh {t : Table key} {a : α} (h : ∀ b ∈ t.rows, key b ≠ key a) :
    ∃ u, t.insert? a = some u := by
  cases hu : t.insert? a with
  | some u => exact ⟨u, rfl⟩
  | none =>
    obtain ⟨b, hb, hk⟩ := insert?_eq_none.mp hu
    exact absurd hk (h b hb)

theorem get?_insert? {t u : Table key} {a : α} (h : t.insert? a = some u) (k : κ) :
    u.get? k = if k = key a then some a else t.get? k := by
  split
  case isTrue hk =>
    subst hk
    exact get?_eq_some.mpr ⟨by simp [rows_of_insert? h], rfl⟩
  case isFalse hk =>
    refine get?_congr fun b hb => ?_
    rw [rows_of_insert? h, List.mem_append, List.mem_singleton, or_iff_left]
    rintro rfl
    exact hk hb.symm

/-- One `INSERT` after another, passing over those that are refused. -/
def insertAll (t : Table key) (as : List α) : Table key :=
  as.foldl (fun t a => (t.insert? a).getD t) t

/-- It brings in no others. -/
theorem mem_insertAll {as : List α} {a : α} : ∀ {t : Table key},
    a ∈ (t.insertAll as).rows → a ∈ t.rows ∨ a ∈ as := by
  induction as with
  | nil => exact Or.inl
  | cons b as ih =>
    intro t ha
    rcases ih (t := (t.insert? b).getD t) ha with ha | ha
    · rcases hins : t.insert? b with _ | u
      · rw [hins] at ha
        exact Or.inl ha
      · rw [hins, Option.getD_some, rows_of_insert? hins, List.mem_append, List.mem_singleton] at ha
        exact ha.imp_right fun ha => List.mem_cons.mpr (Or.inl ha)
    · exact Or.inr (List.mem_cons_of_mem b ha)

/-- **Rows with new keys are all inserted**, in order. -/
theorem rows_insertAll {as : List α} : ∀ {t : Table key}, (as.map key).Nodup →
    (∀ a ∈ as, ∀ b ∈ t.rows, key b ≠ key a) → (t.insertAll as).rows = t.rows ++ as := by
  induction as with
  | nil => exact fun _ _ => (List.append_nil _).symm
  | cons a as ih =>
    intro t hnd hfresh
    obtain ⟨hnew, hnd⟩ := List.nodup_cons.mp hnd
    obtain ⟨u, hu⟩ := insert?_of_fresh (hfresh a List.mem_cons_self)
    have hfresh' : ∀ x ∈ as, ∀ b ∈ u.rows, key b ≠ key x := by
      intro x hx b hb
      rw [rows_of_insert? hu, List.mem_append, List.mem_singleton] at hb
      rcases hb with hb | rfl
      · exact hfresh x (List.mem_cons_of_mem a hx) b hb
      · exact fun h => hnew (h ▸ List.mem_map_of_mem hx)
    have hstep : t.insertAll (a :: as) = u.insertAll as := by
      rw [insertAll, List.foldl_cons, hu]
      rfl
    rw [hstep, ih hnd hfresh', rows_of_insert? hu, List.append_assoc, List.singleton_append]

/-- `UPDATE … WHERE key = …`: the row with the key of `a` becomes `a`. -/
def update (t : Table key) (a : α) : Table key :=
  ⟨t.rows.map fun b => if key b = key a then a else b, by
    have h : (t.rows.map fun b => if key b = key a then a else b).map key = t.rows.map key := by
      rw [List.map_map]
      refine List.map_congr_left fun b _ => ?_
      rw [Function.comp_apply]
      split
      · exact Eq.symm ‹_›
      · rfl
    rw [h]
    exact t.nodup⟩

theorem mem_update {t : Table key} {a b : α} :
    b ∈ (t.update a).rows ↔
      (b = a ∧ ∃ c ∈ t.rows, key c = key a) ∨ (b ∈ t.rows ∧ key b ≠ key a) := by
  simp only [update, List.mem_map]
  constructor
  · rintro ⟨c, hc, rfl⟩
    split
    · exact Or.inl ⟨rfl, c, hc, ‹_›⟩
    · exact Or.inr ⟨hc, ‹_›⟩
  · rintro (⟨rfl, c, hc, hk⟩ | ⟨hb, hk⟩)
    · exact ⟨c, hc, if_pos hk⟩
    · exact ⟨b, hb, if_neg hk⟩

/-- **Updating a row that is there changes that row's lookup and no other.** -/
theorem get?_update {t : Table key} {a c : α} (hc : t.get? (key a) = some c) (k : κ) :
    (t.update a).get? k = if k = key a then some a else t.get? k := by
  obtain ⟨hmem, hkey⟩ := get?_eq_some.mp hc
  split
  case isTrue hk =>
    subst hk
    exact get?_eq_some.mpr ⟨mem_update.mpr (Or.inl ⟨rfl, c, hmem, hkey⟩), rfl⟩
  case isFalse hk =>
    refine get?_congr fun b hb => ?_
    subst hb
    rw [mem_update]
    constructor
    · rintro (⟨rfl, -⟩ | ⟨hb, -⟩)
      · exact absurd rfl hk
      · exact hb
    · exact fun hb => Or.inr ⟨hb, hk⟩

/-- Deleting the row with a key leaves the other lookups alone. -/
theorem get?_filter_ne (t : Table key) (k₀ k : κ) :
    (t.filter fun a => key a ≠ k₀).get? k = if k = k₀ then none else t.get? k := by
  split
  case isTrue hk =>
    subst hk
    exact get?_eq_none.mpr fun a ha => by simpa using (List.mem_filter.mp ha).2
  case isFalse hk =>
    refine get?_congr fun a ha => ?_
    rw [rows_filter, List.mem_filter]
    exact and_iff_left (by simpa [ha] using hk)

/-! ## Joins -/

/-- **A join lists each combination of rows once.** -/
theorem nodup_join {α β : Type*} {xs : List α} {g : α → List β} (hxs : xs.Nodup)
    (hg : ∀ x ∈ xs, (g x).Nodup) : (xs.flatMap fun x => (g x).map (Prod.mk x)).Nodup := by
  refine List.nodup_flatMap.mpr ⟨fun x hx => ?_, ?_⟩
  · exact (hg x hx).map fun _ _ h => (Prod.mk.inj h).2
  · refine hxs.imp fun {x y} hne => ?_
    refine List.disjoint_left.mpr fun p hx hy => ?_
    obtain ⟨_, _, rfl⟩ := List.mem_map.mp hx
    obtain ⟨_, _, h⟩ := List.mem_map.mp hy
    exact hne (Prod.mk.inj h).1.symm

end Table
