import EidosDB.Lib.OrderedTable

/-! # Hash Maps

    The contents of a hash map are a finite map; the order in which it hands
    out its entries is any order at all, and may be another one at each
    iteration.  A program that iterates takes the order as an argument, and
    what it computes should not depend on it: it is enough that the entries
    are a reordering of those of the table. -/

/-- The order of one iteration over a hash map. -/
structure HashOrder : Type 1 where
  entries {K V : Type} [LinearOrder K] (t : OrderedTable K V) : List (K × V)
  perm {K V : Type} [LinearOrder K] (t : OrderedTable K V) : (entries t).Perm t.entries

namespace HashOrder

variable {K V : Type} [LinearOrder K]

/-- Ascending keys. -/
def ascending : HashOrder where
  entries t := t.entries
  perm t := List.Perm.refl t.entries

/-- Descending keys. -/
def descending : HashOrder where
  entries t := t.entries.reverse
  perm t := List.reverse_perm t.entries

variable (order : HashOrder) (t : OrderedTable K V)

/-- `HashMap::keys` -/
def keys : List K := (order.entries t).map Prod.fst

theorem nodup_entries : (order.entries t).Nodup :=
  (order.perm t).nodup_iff.mpr t.nodup_entries

theorem nodup_keys : (order.keys t).Nodup :=
  ((order.perm t).map Prod.fst).nodup_iff.mpr t.nodup_keys

theorem mem_entries_iff {k : K} {v : V} : (k, v) ∈ order.entries t ↔ t.get k = some v :=
  (order.perm t).mem_iff.trans (t.mem_entries_iff k v)

theorem mem_keys_iff {k : K} : k ∈ order.keys t ↔ (t.get k).isSome = true := by
  unfold keys
  rw [List.mem_map, Option.isSome_iff_exists]
  constructor
  · rintro ⟨⟨k', v⟩, hmem, rfl⟩
    exact ⟨v, (order.mem_entries_iff t).mp hmem⟩
  · rintro ⟨v, hv⟩
    exact ⟨(k, v), (order.mem_entries_iff t).mpr hv, rfl⟩

/-- The entries of one key. -/
theorem filter_key (k : K) : (order.entries t).filter (fun e => decide (e.1 = k)) =
    (t.get k).elim [] fun v => [(k, v)] := by
  have hmem : ∀ e, e ∈ (order.entries t).filter (fun e => decide (e.1 = k)) ↔
      e.1 = k ∧ t.get k = some e.2 := by
    rintro ⟨k', v⟩
    rw [List.mem_filter, order.mem_entries_iff, decide_eq_true_eq]
    constructor
    · rintro ⟨hget, rfl⟩
      exact ⟨rfl, hget⟩
    · rintro ⟨rfl, hget⟩
      exact ⟨hget, rfl⟩
  have hnodup := (order.nodup_entries t).filter fun e => decide (e.1 = k)
  cases hget : t.get k with
  | none =>
    apply List.eq_nil_iff_forall_not_mem.mpr
    intro e he
    have hsome := ((hmem e).mp he).2
    rw [hget] at hsome
    simp at hsome
  | some v =>
    apply List.perm_singleton.mp
    apply (List.perm_ext_iff_of_nodup hnodup (List.nodup_singleton _)).mpr
    rintro ⟨k', v'⟩
    rw [hmem, hget, List.mem_singleton, Prod.mk.injEq, Option.some.injEq, eq_comm (a := v)]

/-- A table collected from a reordering of its own entries is the table. -/
theorem ofList_entries : OrderedTable.ofList (order.entries t) = t := by
  apply OrderedTable.ext_get
  intro k
  cases hget : t.get k with
  | some v =>
    have hmem := (order.mem_entries_iff t).mpr hget
    apply OrderedTable.get_insertMany_of_mem _ _ _ _ hmem
    intro e he hek
    have hkeys : ((order.entries t).map Prod.fst).Nodup := order.nodup_keys t
    exact congrArg Prod.snd (List.inj_on_of_nodup_map hkeys he hmem hek)
  | none =>
    have hnot : ∀ e ∈ order.entries t, e.1 ≠ k := by
      rintro ⟨k', v⟩ he rfl
      rw [(order.mem_entries_iff t).mp he] at hget
      exact absurd hget (by simp)
    unfold OrderedTable.ofList
    rw [OrderedTable.get_insertMany_of_notMem _ _ _ hnot, OrderedTable.get_empty]

end HashOrder
