import Mathlib

/-! # Ordered Tables

    A finite map kept as the list of its entries in strictly increasing key
    order.  The order is part of the value, so iteration needs no separate
    argument, and a table is determined by its lookups. -/

namespace OrderedTable

variable {K V : Type} [LinearOrder K]

/-- Entries in strictly increasing key order. -/
def Ordered (l : List (K × V)) : Prop := l.Pairwise (fun a b => a.1 < b.1)

def lookupEntry (k : K) : List (K × V) → Option V
  | [] => none
  | (k', v) :: rest => if k = k' then some v else lookupEntry k rest

/-- Put `(k, v)` at its place, replacing the entry of `k` if there is one. -/
def insertEntry (k : K) (v : V) : List (K × V) → List (K × V)
  | [] => [(k, v)]
  | (k', v') :: rest =>
      if k < k' then (k, v) :: (k', v') :: rest
      else if k = k' then (k, v) :: rest
      else (k', v') :: insertEntry k v rest

def eraseEntry (k : K) (l : List (K × V)) : List (K × V) :=
  l.filter (fun e => decide (e.1 ≠ k))

theorem lookupEntry_insertEntry (k k' : K) (v : V) (l : List (K × V)) :
    lookupEntry k' (insertEntry k v l) = if k' = k then some v else lookupEntry k' l := by
  induction l with
  | nil => simp [insertEntry, lookupEntry]
  | cons e rest ih =>
    obtain ⟨k₀, v₀⟩ := e
    unfold insertEntry
    by_cases hlt : k < k₀
    · simp [hlt, lookupEntry]
    · by_cases heq : k = k₀
      · subst heq
        by_cases hk' : k' = k <;> simp [lookupEntry, hk']
      · by_cases hk₀ : k' = k₀
        · have hne : k' ≠ k := fun h => heq (h.symm.trans hk₀)
          simp [hlt, heq, lookupEntry, hk₀, Ne.symm heq]
        · simp [hlt, heq, lookupEntry, hk₀, ih]

theorem mem_insertEntry_key {k : K} {v : V} {l : List (K × V)} {e : K × V}
    (h : e ∈ insertEntry k v l) : e.1 = k ∨ e ∈ l := by
  induction l with
  | nil => simp [insertEntry] at h; exact Or.inl (by rw [h])
  | cons e' rest ih =>
    obtain ⟨k₀, v₀⟩ := e'
    unfold insertEntry at h
    split at h
    · rcases List.mem_cons.mp h with rfl | h
      · exact Or.inl rfl
      · exact Or.inr h
    · split at h
      · rcases List.mem_cons.mp h with rfl | h
        · exact Or.inl rfl
        · exact Or.inr (List.mem_cons_of_mem _ h)
      · rcases List.mem_cons.mp h with rfl | h
        · exact Or.inr List.mem_cons_self
        · exact (ih h).imp_right (List.mem_cons_of_mem _)

theorem ordered_insertEntry {l : List (K × V)} (h : Ordered l) (k : K) (v : V) :
    Ordered (insertEntry k v l) := by
  induction l with
  | nil => simp [insertEntry, Ordered]
  | cons e rest ih =>
    obtain ⟨k₀, v₀⟩ := e
    obtain ⟨hhead, htail⟩ := List.pairwise_cons.mp h
    unfold insertEntry
    by_cases hlt : k < k₀
    · rw [if_pos hlt]
      refine List.pairwise_cons.mpr ⟨?_, h⟩
      intro e he
      rcases List.mem_cons.mp he with rfl | he
      · exact hlt
      · exact lt_trans hlt (hhead e he)
    · rw [if_neg hlt]
      by_cases heq : k = k₀
      · subst heq
        rw [if_pos rfl]
        exact List.pairwise_cons.mpr ⟨hhead, htail⟩
      · rw [if_neg heq]
        refine List.pairwise_cons.mpr ⟨?_, ih htail⟩
        intro e he
        rcases mem_insertEntry_key he with hk | he
        · rw [hk]
          exact lt_of_le_of_ne (not_lt.mp hlt) (Ne.symm heq)
        · exact hhead e he

theorem ordered_eraseEntry {l : List (K × V)} (h : Ordered l) (k : K) :
    Ordered (eraseEntry k l) :=
  h.sublist List.filter_sublist

theorem lookupEntry_eq_some {l : List (K × V)} (h : Ordered l) (k : K) (v : V) :
    lookupEntry k l = some v ↔ (k, v) ∈ l := by
  induction l with
  | nil => simp [lookupEntry]
  | cons e rest ih =>
    obtain ⟨k₀, v₀⟩ := e
    obtain ⟨hhead, htail⟩ := List.pairwise_cons.mp h
    unfold lookupEntry
    by_cases heq : k = k₀
    · subst heq
      have hnot : (k, v) ∉ rest := fun hm => lt_irrefl k (hhead (k, v) hm)
      simp [hnot, eq_comm]
    · rw [if_neg heq, ih htail]
      simp [heq]

theorem lookupEntry_eraseEntry (k k' : K) (l : List (K × V)) :
    lookupEntry k' (eraseEntry k l) = if k' = k then none else lookupEntry k' l := by
  induction l with
  | nil => simp [eraseEntry, lookupEntry]
  | cons e rest ih =>
    obtain ⟨k₀, v₀⟩ := e
    unfold eraseEntry at ih ⊢
    by_cases hk₀ : k₀ = k
    · subst hk₀
      rw [List.filter_cons_of_neg (by simp), ih]
      by_cases hk' : k' = k₀ <;> simp [hk', lookupEntry]
    · rw [List.filter_cons_of_pos (by simpa using hk₀)]
      simp only [lookupEntry, ih]
      by_cases hk' : k' = k₀
      · subst hk'
        simp [hk₀]
      · simp [hk']

theorem length_insertEntry (k : K) (v : V) (l : List (K × V)) (h : lookupEntry k l = none) :
    (insertEntry k v l).length = l.length + 1 := by
  induction l with
  | nil => rfl
  | cons e rest ih =>
    obtain ⟨k₀, v₀⟩ := e
    unfold lookupEntry at h
    by_cases heq : k = k₀
    · simp [heq] at h
    · rw [if_neg heq] at h
      unfold insertEntry
      by_cases hlt : k < k₀
      · simp [hlt]
      · simp [hlt, heq, ih h]

theorem length_eraseEntry {l : List (K × V)} (ho : Ordered l) {k : K} {v : V}
    (h : lookupEntry k l = some v) : (eraseEntry k l).length + 1 = l.length := by
  induction l with
  | nil => simp [lookupEntry] at h
  | cons e rest ih =>
    obtain ⟨k₀, v₀⟩ := e
    obtain ⟨hhead, htail⟩ := List.pairwise_cons.mp ho
    unfold lookupEntry at h
    unfold eraseEntry at ih ⊢
    by_cases heq : k = k₀
    · subst heq
      have hall : rest.filter (fun e => decide (e.1 ≠ k)) = rest := by
        rw [List.filter_eq_self]
        intro e he
        simpa using ne_of_gt (hhead e he)
      rw [List.filter_cons_of_neg (by simp), hall]
      rfl
    · rw [if_neg heq] at h
      rw [List.filter_cons_of_pos (by simpa using Ne.symm heq)]
      simpa using ih htail h

end OrderedTable

/-- A finite map from `K` to `V`. -/
structure OrderedTable (K V : Type) [LinearOrder K] where
  entries : List (K × V)
  ordered : OrderedTable.Ordered entries

namespace OrderedTable

variable {K V : Type} [LinearOrder K]

def empty : OrderedTable K V where
  entries := []
  ordered := List.Pairwise.nil

def get (t : OrderedTable K V) (k : K) : Option V := lookupEntry k t.entries

def insert (t : OrderedTable K V) (k : K) (v : V) : OrderedTable K V where
  entries := insertEntry k v t.entries
  ordered := ordered_insertEntry t.ordered k v

def erase (t : OrderedTable K V) (k : K) : OrderedTable K V where
  entries := eraseEntry k t.entries
  ordered := ordered_eraseEntry t.ordered k

def len (t : OrderedTable K V) : Nat := t.entries.length

/-- Insert entries one after the other, later ones winning. -/
def insertMany (t : OrderedTable K V) (items : List (K × V)) : OrderedTable K V :=
  items.foldl (fun t e => t.insert e.1 e.2) t

def ofList (items : List (K × V)) : OrderedTable K V := insertMany empty items

@[simp] theorem get_empty (k : K) : (empty : OrderedTable K V).get k = none := rfl

@[simp] theorem len_empty : (empty : OrderedTable K V).len = 0 := rfl

theorem get_insert (t : OrderedTable K V) (k k' : K) (v : V) :
    (t.insert k v).get k' = if k' = k then some v else t.get k' :=
  lookupEntry_insertEntry k k' v t.entries

@[simp] theorem get_insert_self (t : OrderedTable K V) (k : K) (v : V) :
    (t.insert k v).get k = some v := by
  simp [get_insert]

theorem get_insert_ne (t : OrderedTable K V) {k k' : K} (v : V) (h : k' ≠ k) :
    (t.insert k v).get k' = t.get k' := by
  simp [get_insert, h]

theorem get_erase (t : OrderedTable K V) (k k' : K) :
    (t.erase k).get k' = if k' = k then none else t.get k' :=
  lookupEntry_eraseEntry k k' t.entries

theorem mem_entries_iff (t : OrderedTable K V) (k : K) (v : V) :
    (k, v) ∈ t.entries ↔ t.get k = some v :=
  (lookupEntry_eq_some t.ordered k v).symm

theorem len_insert_new (t : OrderedTable K V) {k : K} (v : V) (h : t.get k = none) :
    (t.insert k v).len = t.len + 1 :=
  length_insertEntry k v t.entries h

theorem len_erase (t : OrderedTable K V) {k : K} {v : V} (h : t.get k = some v) :
    (t.erase k).len + 1 = t.len :=
  length_eraseEntry t.ordered h

theorem len_erase_none (t : OrderedTable K V) {k : K} (h : t.get k = none) :
    (t.erase k).len = t.len := by
  have hkept : eraseEntry k t.entries = t.entries := by
    apply List.filter_eq_self.mpr
    intro e he
    apply decide_eq_true
    rintro rfl
    have := (t.mem_entries_iff e.1 e.2).mp he
    rw [h] at this
    exact absurd this (by simp)
  exact congrArg List.length hkept

theorem nodup_keys (t : OrderedTable K V) : (t.entries.map Prod.fst).Nodup :=
  List.pairwise_map.mpr (t.ordered.imp fun h => ne_of_lt h)

theorem nodup_entries (t : OrderedTable K V) : t.entries.Nodup :=
  List.Nodup.of_map _ t.nodup_keys

@[simp] theorem insertMany_nil (t : OrderedTable K V) : t.insertMany [] = t := rfl

@[simp] theorem insertMany_cons (t : OrderedTable K V) (e : K × V) (rest : List (K × V)) :
    t.insertMany (e :: rest) = (t.insert e.1 e.2).insertMany rest := rfl

theorem get_insertMany_of_notMem (t : OrderedTable K V) (items : List (K × V)) (k : K)
    (h : ∀ e ∈ items, e.1 ≠ k) : (t.insertMany items).get k = t.get k := by
  induction items generalizing t with
  | nil => rfl
  | cons e rest ih =>
    rw [insertMany_cons, ih _ (fun e' he' => h e' (List.mem_cons_of_mem _ he')),
      get_insert_ne _ _ (Ne.symm (h e List.mem_cons_self))]

/-- A value read after insertions was inserted, or was there before. -/
theorem get_insertMany_eq_some {t : OrderedTable K V} {items : List (K × V)} {k : K} {v : V}
    (h : (t.insertMany items).get k = some v) : (k, v) ∈ items ∨ t.get k = some v := by
  induction items generalizing t with
  | nil => exact Or.inr h
  | cons e items ih =>
    rcases ih h with hmem | hget
    · exact Or.inl (List.mem_cons_of_mem _ hmem)
    · rw [get_insert] at hget
      split at hget
      · rename_i hk
        obtain rfl : e.2 = v := by simpa using hget
        exact Or.inl (hk ▸ List.mem_cons_self)
      · exact Or.inr hget

/-- When the items agree on a value for `k` and one of them has it, the table
    ends with that value. -/
theorem get_insertMany_of_mem (t : OrderedTable K V) (items : List (K × V)) (k : K) (v : V)
    (hmem : (k, v) ∈ items) (hagree : ∀ e ∈ items, e.1 = k → e.2 = v) :
    (t.insertMany items).get k = some v := by
  induction items generalizing t with
  | nil => simp at hmem
  | cons e rest ih =>
    have hagree' : ∀ e' ∈ rest, e'.1 = k → e'.2 = v :=
      fun e' he' => hagree e' (List.mem_cons_of_mem _ he')
    rw [insertMany_cons]
    by_cases hrest : (k, v) ∈ rest
    · exact ih _ hrest hagree'
    · have he : e = (k, v) := by
        rcases List.mem_cons.mp hmem with h | h
        · exact h.symm
        · exact absurd h hrest
      have hnone : ∀ e' ∈ rest, e'.1 ≠ k := by
        intro e' he' hk
        apply hrest
        rw [← hk, ← hagree' e' he' hk]
        exact he'
      rw [get_insertMany_of_notMem _ _ _ hnone, he, get_insert_self]

/-- What is read after insertions that agree on each key. -/
theorem get_insertMany_iff (t : OrderedTable K V) {items : List (K × V)}
    (hagree : ∀ e ∈ items, ∀ e' ∈ items, e.1 = e'.1 → e.2 = e'.2) (k : K) (v : V) :
    (t.insertMany items).get k = some v ↔
      (k, v) ∈ items ∨ ((∀ e ∈ items, e.1 ≠ k) ∧ t.get k = some v) := by
  by_cases hk : ∃ e ∈ items, e.1 = k
  · obtain ⟨e, he, rfl⟩ := hk
    have hget := t.get_insertMany_of_mem items e.1 e.2 he (fun e' he' h => hagree e' he' e he h)
    rw [hget]
    constructor
    · intro heq
      obtain rfl : e.2 = v := by simpa using heq
      exact Or.inl he
    · rintro (hmem | ⟨hnot, -⟩)
      · exact congrArg some (hagree e he (e.1, v) hmem rfl)
      · exact absurd rfl (hnot e he)
  · have hnot : ∀ e ∈ items, e.1 ≠ k := fun e he h => hk ⟨e, he, h⟩
    rw [t.get_insertMany_of_notMem items k hnot]
    constructor
    · intro h
      exact Or.inr ⟨hnot, h⟩
    · rintro (hmem | ⟨-, h⟩)
      · exact absurd rfl (hnot (k, v) hmem)
      · exact h

@[ext] theorem ext {t t' : OrderedTable K V} (h : t.entries = t'.entries) : t = t' := by
  cases t
  cases t'
  cases h
  rfl

instance tableDecidableEq [DecidableEq V] : DecidableEq (OrderedTable K V) := fun t t' =>
  decidable_of_iff (t.entries = t'.entries) ⟨ext, congrArg entries⟩

/-- Tables that read the same are the same. -/
theorem ext_get {t t' : OrderedTable K V} (h : ∀ k, t.get k = t'.get k) : t = t' := by
  apply ext
  apply @List.Perm.eq_of_pairwise _ (fun a b => a.1 ≤ b.1)
  · intro a b ha hb hab hba
    have hkey : a.1 = b.1 := le_antisymm hab hba
    have ha' := (t.mem_entries_iff a.1 a.2).mp ha
    have hb' := (t'.mem_entries_iff b.1 b.2).mp hb
    rw [h, hkey, hb', Option.some.injEq] at ha'
    exact Prod.ext hkey ha'.symm
  · exact t.ordered.imp le_of_lt
  · exact t'.ordered.imp le_of_lt
  · apply (List.perm_ext_iff_of_nodup t.nodup_entries t'.nodup_entries).mpr
    rintro ⟨k, v⟩
    rw [mem_entries_iff, mem_entries_iff, h]

theorem insertEntry_of_lt {k : K} {v : V} {l : List (K × V)} (h : ∀ e ∈ l, e.1 < k) :
    insertEntry k v l = l ++ [(k, v)] := by
  induction l with
  | nil => rfl
  | cons e l ih =>
    have he := h e List.mem_cons_self
    rw [insertEntry, if_neg (not_lt_of_gt he), if_neg (ne_of_gt he),
      ih (fun e' he' => h e' (List.mem_cons_of_mem _ he')), List.cons_append]

/-- Entries inserted in key order after the last one are appended. -/
theorem entries_insertMany_of_ordered (t : OrderedTable K V) (items : List (K × V))
    (h : Ordered (t.entries ++ items)) : (t.insertMany items).entries = t.entries ++ items := by
  induction items generalizing t with
  | nil => rw [insertMany_nil, List.append_nil]
  | cons e items ih =>
    have hlt : ∀ e' ∈ t.entries, e'.1 < e.1 := by
      intro e' he'
      exact (List.pairwise_append.mp h).2.2 e' he' e List.mem_cons_self
    have hentries : (t.insert e.1 e.2).entries = t.entries ++ [e] := insertEntry_of_lt hlt
    rw [insertMany_cons, ih _ (by rw [hentries, List.append_assoc]; exact h), hentries,
      List.append_assoc]
    rfl

/-- A table is rebuilt from its entries. -/
theorem ofList_entries (t : OrderedTable K V) : ofList t.entries = t := by
  apply ext
  exact entries_insertMany_of_ordered empty t.entries t.ordered

theorem len_insertMany_new (t : OrderedTable K V) (items : List (K × V))
    (hnodup : (items.map Prod.fst).Nodup) (hnew : ∀ e ∈ items, t.get e.1 = none) :
    (t.insertMany items).len = t.len + items.length := by
  induction items generalizing t with
  | nil => rfl
  | cons e rest ih =>
    rw [List.map_cons, List.nodup_cons] at hnodup
    obtain ⟨hnotin, hnodup⟩ := hnodup
    rw [insertMany_cons, ih _ hnodup, len_insert_new _ _ (hnew e List.mem_cons_self)]
    · rw [List.length_cons]
      omega
    · intro e' he'
      have hne : e'.1 ≠ e.1 := fun h => hnotin (h ▸ List.mem_map_of_mem he')
      rw [get_insert_ne _ _ hne]
      exact hnew e' (List.mem_cons_of_mem _ he')

/-! ## Changes of single entries -/

theorem erase_insert (t : OrderedTable K V) (k : K) (v : V) :
    (t.insert k v).erase k = t.erase k := by
  apply ext_get
  intro k'
  rw [get_erase, get_erase, get_insert]
  by_cases hk : k' = k
  · rw [if_pos hk, if_pos hk]
  · rw [if_neg hk, if_neg hk, if_neg hk]

theorem len_insert (t : OrderedTable K V) (k : K) (v : V) :
    (t.insert k v).len = (t.erase k).len + 1 := by
  rw [← erase_insert t k v]
  exact (len_erase _ (get_insert_self t k v)).symm

theorem insert_erase (t : OrderedTable K V) (k : K) (v : V) :
    (t.erase k).insert k v = t.insert k v := by
  apply ext_get
  intro k'
  rw [get_insert, get_insert, get_erase]
  by_cases hk : k' = k
  · rw [if_pos hk, if_pos hk]
  · rw [if_neg hk, if_neg hk, if_neg hk]

theorem perm_erase (t : OrderedTable K V) {k : K} {v : V} (h : t.get k = some v) :
    t.entries.Perm ((k, v) :: (t.erase k).entries) := by
  have hnot : (k, v) ∉ (t.erase k).entries := by
    rw [mem_entries_iff, get_erase, if_pos rfl]
    simp
  apply (List.perm_ext_iff_of_nodup t.nodup_entries
    (List.nodup_cons.mpr ⟨hnot, nodup_entries _⟩)).mpr
  rintro ⟨k', v'⟩
  rw [mem_entries_iff, List.mem_cons, mem_entries_iff, get_erase, Prod.mk.injEq]
  by_cases hk : k' = k
  · subst hk
    simp [h, eq_comm]
  · simp [hk]

theorem perm_insert (t : OrderedTable K V) (k : K) (v : V) :
    (t.insert k v).entries.Perm ((k, v) :: (t.erase k).entries) := by
  have h := (t.insert k v).perm_erase (t.get_insert_self k v)
  rwa [erase_insert] at h

theorem erase_of_none (t : OrderedTable K V) {k : K} (h : t.get k = none) : t.erase k = t := by
  apply ext_get
  intro k'
  rw [get_erase]
  by_cases hk : k' = k
  · rw [if_pos hk, hk, h]
  · rw [if_neg hk]

/-- Replace what is stored for a key. -/
def alter (t : OrderedTable K V) (k : K) (f : Option V → Option V) : OrderedTable K V :=
  match f (t.get k) with
  | some v => t.insert k v
  | none => t.erase k

theorem get_alter (t : OrderedTable K V) (k k' : K) (f : Option V → Option V) :
    (t.alter k f).get k' = if k' = k then f (t.get k) else t.get k' := by
  unfold alter
  cases hf : f (t.get k) with
  | some v => exact get_insert t k k' v
  | none => exact get_erase t k k'

/-- The same change of every key of a list. -/
def alterMany (t : OrderedTable K V) (ks : List K) (f : Option V → Option V) : OrderedTable K V :=
  ks.foldl (fun t k => t.alter k f) t

theorem get_alterMany (t : OrderedTable K V) {ks : List K} (hnodup : ks.Nodup)
    (f : Option V → Option V) (k : K) :
    (t.alterMany ks f).get k = if k ∈ ks then f (t.get k) else t.get k := by
  induction ks generalizing t with
  | nil => simp [alterMany]
  | cons a ks ih =>
    obtain ⟨hnot, hnodup⟩ := List.nodup_cons.mp hnodup
    have hstep : t.alterMany (a :: ks) f = (t.alter a f).alterMany ks f := rfl
    rw [hstep, ih _ hnodup, get_alter]
    by_cases hk : k = a
    · subst hk
      simp [hnot]
    · simp [hk]

theorem get_ofList_iff {items : List (K × V)} (hnodup : (items.map Prod.fst).Nodup) (k : K)
    (v : V) : (ofList items).get k = some v ↔ (k, v) ∈ items := by
  have hagree : ∀ e ∈ items, ∀ e' ∈ items, e.1 = e'.1 → e.2 = e'.2 := by
    intro e he e' he' hkey
    exact congrArg Prod.snd (List.inj_on_of_nodup_map hnodup he he' hkey)
  unfold ofList
  rw [get_insertMany_iff _ hagree]
  simp

/-! ## Tables from tables -/

section

variable {W : Type}

theorem ordered_map (f : V → W) {l : List (K × V)} (h : Ordered l) :
    Ordered (l.map fun e => (e.1, f e.2)) := List.pairwise_map.mpr h

theorem ordered_filter (p : K × V → Bool) {l : List (K × V)} (h : Ordered l) :
    Ordered (l.filter p) := h.filter p

/-- The same keys with other values. -/
def mapValues (f : V → W) (t : OrderedTable K V) : OrderedTable K W where
  entries := t.entries.map fun e => (e.1, f e.2)
  ordered := ordered_map f t.ordered

theorem lookupEntry_map (f : V → W) (k : K) (l : List (K × V)) :
    lookupEntry k (l.map fun e => (e.1, f e.2)) = (lookupEntry k l).map f := by
  induction l with
  | nil => rfl
  | cons e rest ih =>
    obtain ⟨k', v⟩ := e
    rw [List.map_cons, lookupEntry, lookupEntry, ih]
    split <;> rfl

theorem get_mapValues (f : V → W) (t : OrderedTable K V) (k : K) :
    (t.mapValues f).get k = (t.get k).map f := lookupEntry_map f k t.entries

@[simp] theorem len_mapValues (f : V → W) (t : OrderedTable K V) :
    (t.mapValues f).len = t.len := List.length_map _

theorem mapValues_insert (f : V → W) (t : OrderedTable K V) (k : K) (v : V) :
    (t.insert k v).mapValues f = (t.mapValues f).insert k (f v) := by
  apply ext_get
  intro k'
  rw [get_mapValues, get_insert, get_insert, get_mapValues]
  split <;> rfl

theorem mapValues_erase (f : V → W) (t : OrderedTable K V) (k : K) :
    (t.erase k).mapValues f = (t.mapValues f).erase k := by
  apply ext_get
  intro k'
  rw [get_mapValues, get_erase, get_erase, get_mapValues]
  split <;> rfl

/-- The entries that satisfy a predicate. -/
def filter (p : K → V → Bool) (t : OrderedTable K V) : OrderedTable K V where
  entries := t.entries.filter fun e => p e.1 e.2
  ordered := ordered_filter _ t.ordered

theorem get_filter (p : K → V → Bool) (t : OrderedTable K V) (k : K) :
    (t.filter p).get k = (t.get k).filter (p k) := by
  apply Option.ext
  intro v
  rw [← mem_entries_iff, filter, List.mem_filter, mem_entries_iff, Option.filter_eq_some_iff]

/-! ## Sums over the entries -/

/-- The sum of a number for each entry. -/
def total (f : K → V → Nat) (t : OrderedTable K V) : Nat := (t.entries.map fun e => f e.1 e.2).sum

/-- The sum over any set of keys that has all of them. -/
theorem total_eq_sum (f : K → V → Nat) (t : OrderedTable K V) {keys : Finset K}
    (h : ∀ k, (t.get k).isSome = true → k ∈ keys) :
    t.total f = ∑ k ∈ keys, (t.get k).elim 0 (f k) := by
  have hsub : (t.entries.map Prod.fst).toFinset ⊆ keys := by
    intro k hk
    obtain ⟨e, he, rfl⟩ := List.mem_map.mp (List.mem_toFinset.mp hk)
    apply h
    rw [(t.mem_entries_iff e.1 e.2).mp he]
    rfl
  rw [← Finset.sum_subset hsub]
  · rw [List.sum_toFinset _ t.nodup_keys, List.map_map]
    apply congrArg List.sum
    apply List.map_congr_left
    intro e he
    show f e.1 e.2 = (t.get e.1).elim 0 (f e.1)
    rw [(t.mem_entries_iff e.1 e.2).mp he]
    rfl
  · intro k _ hk
    cases hget : t.get k with
    | none => rfl
    | some v =>
      have hmem := (t.mem_entries_iff k v).mpr hget
      exact absurd (List.mem_toFinset.mpr (List.mem_map_of_mem hmem)) hk

/-- A sum depends on what is read only. -/
theorem total_congr {f : K → V → Nat} {g : K → W → Nat} {t : OrderedTable K V}
    {t' : OrderedTable K W} (h : ∀ k, (t.get k).elim 0 (f k) = (t'.get k).elim 0 (g k)) :
    t.total f = t'.total g := by
  have hkeys : ∀ {X : Type} (u : OrderedTable K X) (k : K), (u.get k).isSome = true →
      k ∈ (u.entries.map Prod.fst).toFinset := by
    intro X u k hk
    obtain ⟨v, hv⟩ := Option.isSome_iff_exists.mp hk
    exact List.mem_toFinset.mpr (List.mem_map_of_mem ((u.mem_entries_iff k v).mpr hv))
  rw [t.total_eq_sum f (fun k hk => Finset.mem_union_left _ (hkeys t k hk)),
    t'.total_eq_sum g (fun k hk => Finset.mem_union_right _ (hkeys t' k hk))]
  exact Finset.sum_congr rfl fun k _ => h k

end

end OrderedTable
