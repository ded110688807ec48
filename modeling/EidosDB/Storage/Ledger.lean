import EidosDB.Core.Flat
import EidosDB.Lib.OrderedTable
import EidosDB.Storage.PersistentFlat

/-! # The Ledger of a Store

    What a flat store says, apart from how it says it: the list of records
    ever appended, and for each live id the slot of its record.  `contents`
    is the map from ids to embeddings that this denotes. -/

namespace EidosDB

open FlatStore

/-- Records, and a slot inside them for each live id. -/
structure Ledger where
  recs : List Embedding
  slots : OrderedTable VectorId Nat
  slots_lt : ∀ id slot, slots.get id = some slot → slot < recs.length

/-! ## Consecutive slots -/

@[simp] theorem map_fst_assignSlots (next : Nat) (ids : List VectorId) :
    (assignSlots next ids).map Prod.fst = ids := by
  induction ids generalizing next with
  | nil => rfl
  | cons id ids ih => rw [assignSlots, List.map_cons, ih]

@[simp] theorem length_assignSlots (next : Nat) (ids : List VectorId) :
    (assignSlots next ids).length = ids.length := by
  rw [← List.length_map Prod.fst, map_fst_assignSlots]

theorem mem_assignSlots {next : Nat} {ids : List VectorId} {p : VectorId × Nat} :
    p ∈ assignSlots next ids ↔ ∃ i, ids[i]? = some p.1 ∧ p.2 = next + i := by
  induction ids generalizing next with
  | nil => simp [assignSlots]
  | cons id ids ih =>
    rw [assignSlots, List.mem_cons, ih]
    constructor
    · intro h
      rcases h with rfl | ⟨i, hi, hp⟩
      · exact ⟨0, rfl, rfl⟩
      · exact ⟨i + 1, hi, by omega⟩
    · intro hend
      obtain ⟨i, hi, hp⟩ := hend
      cases i with
      | zero => exact Or.inl (Prod.ext (by simpa using hi.symm) (by simpa using hp))
      | succ i => exact Or.inr ⟨i, hi, by omega⟩

namespace Ledger

@[simp] def empty : Ledger where
  recs := []
  slots := .empty
  slots_lt := by intro id slot h; simp at h

/-- The embedding stored under an id. -/
def contents (self : Ledger) (id : VectorId) : Option Embedding :=
  (self.slots.get id).bind (fun slot => self.recs[slot]?)

theorem contents_eq_some {self : Ledger} {id : VectorId} {e : Embedding} :
    self.contents id = some e ↔
      ∃ slot, self.slots.get id = some slot ∧ self.recs[slot]? = some e := by
  rw [contents, Option.bind_eq_some_iff]

/-- An id has contents when it has a slot. -/
theorem contents_isSome (self : Ledger) (id : VectorId) :
    (self.contents id).isSome = (self.slots.get id).isSome := by
  unfold contents
  cases h : self.slots.get id with
  | none => rfl
  | some slot =>
    have hlt := self.slots_lt id slot h
    simp [hlt]

/-! ## Appending -/

/-- Append the items' records and point their ids at them. -/
def add (self : Ledger) (items : List (VectorId × Embedding)) : Ledger where
  recs := self.recs ++ items.map Prod.snd
  slots := self.slots.insertMany (assignSlots self.recs.length (items.map Prod.fst))
  slots_lt := by
    intro id slot h
    rw [List.length_append, List.length_map]
    -- the slot is one of the new ones, or an old one
    have hcases := OrderedTable.get_insertMany_eq_some h
    rcases hcases with hmem | hold
    · obtain ⟨i, hi, hp⟩ := mem_assignSlots.mp hmem
      have hlt := (List.getElem?_eq_some_iff.mp hi).1
      rw [List.length_map] at hlt
      dsimp only at hp
      omega
    · have := self.slots_lt id slot hold
      omega

theorem contents_add_of_mem (self : Ledger) {items : List (VectorId × Embedding)}
    (hnodup : (items.map Prod.fst).Nodup) {id : VectorId} {e : Embedding}
    (h : (id, e) ∈ items) : (self.add items).contents id = some e := by
  obtain ⟨i, hi⟩ := List.mem_iff_getElem?.mp h
  have hid : (items.map Prod.fst)[i]? = some id := by rw [List.getElem?_map, hi]; rfl
  apply contents_eq_some.mpr
  refine ⟨self.recs.length + i, ?_, ?_⟩
  · apply OrderedTable.get_insertMany_of_mem
    · exact mem_assignSlots.mpr ⟨i, hid, rfl⟩
    · intro p hp hpid
      obtain ⟨j, hj, hslot⟩ := mem_assignSlots.mp hp
      rw [hpid] at hj
      -- the ids are distinct, so the position is the same
      have hij : i = j := (List.getElem?_inj (List.getElem?_eq_some_iff.mp hid).1 hnodup).mp
        (hid.trans hj.symm)
      rw [hslot, hij]
  · simp only [add]
    rw [List.getElem?_append_right (by omega), Nat.add_sub_cancel_left, List.getElem?_map, hi]
    rfl

theorem contents_add_of_notMem (self : Ledger) {items : List (VectorId × Embedding)}
    {id : VectorId} (h : id ∉ items.map Prod.fst) :
    (self.add items).contents id = self.contents id := by
  have hget : (self.add items).slots.get id = self.slots.get id := by
    apply OrderedTable.get_insertMany_of_notMem
    intro p hp hpid
    apply h
    rw [← map_fst_assignSlots self.recs.length (items.map Prod.fst), ← hpid]
    exact List.mem_map_of_mem hp
  unfold contents
  rw [hget]
  cases hslot : self.slots.get id with
  | none => rfl
  | some slot => exact List.getElem?_append_left (self.slots_lt id slot hslot)

/-! ## Erasing -/

def erase (self : Ledger) (id : VectorId) : Ledger where
  recs := self.recs
  slots := self.slots.erase id
  slots_lt := by
    intro id' slot h
    rw [OrderedTable.get_erase] at h
    split at h
    · simp at h
    · exact self.slots_lt id' slot h

theorem contents_erase (self : Ledger) (id id' : VectorId) :
    (self.erase id).contents id' = if id' = id then none else self.contents id' := by
  simp only [contents, erase, OrderedTable.get_erase]
  split <;> rfl

/-! ## The points -/

/-- The points that a list of slots denotes. -/
def pointsAt (self : Ledger) (live : List (VectorId × Nat)) : List (VectorId × Embedding) :=
  live.filterMap (fun p => (self.recs[p.2]?).map (Prod.mk p.1))

theorem pointsAt_cons {self : Ledger} {q : VectorId × Nat} {e : Embedding}
    (h : self.recs[q.2]? = some e) (live : List (VectorId × Nat)) :
    self.pointsAt (q :: live) = (q.1, e) :: self.pointsAt live := by
  rw [pointsAt, List.filterMap_cons, h]
  rfl

def points (self : Ledger) : List (VectorId × Embedding) := self.pointsAt self.slots.entries

theorem mem_pointsAt {self : Ledger} {live : List (VectorId × Nat)}
    (hlive : ∀ p, p ∈ live ↔ p ∈ self.slots.entries) {p : VectorId × Embedding} :
    p ∈ self.pointsAt live ↔ self.contents p.1 = some p.2 := by
  rw [pointsAt, List.mem_filterMap, contents_eq_some]
  constructor
  · intro hend
    obtain ⟨q, hq, hmap⟩ := hend
    obtain ⟨e, he, rfl⟩ := Option.map_eq_some_iff.mp hmap
    exact ⟨q.2, (self.slots.mem_entries_iff q.1 q.2).mp ((hlive q).mp hq), he⟩
  · intro hend
    obtain ⟨slot, hslot, hrec⟩ := hend
    refine ⟨(p.1, slot), (hlive _).mpr ((self.slots.mem_entries_iff p.1 slot).mpr hslot), ?_⟩
    rw [hrec]
    rfl

/-- Every live slot denotes a point. -/
theorem map_fst_pointsAt {self : Ledger} {live : List (VectorId × Nat)}
    (hlive : ∀ p ∈ live, p.2 < self.recs.length) :
    (self.pointsAt live).map Prod.fst = live.map Prod.fst := by
  induction live with
  | nil => rfl
  | cons p live ih =>
    have hp := List.getElem?_eq_getElem (hlive p List.mem_cons_self)
    have hrest := ih (fun q hq => hlive q (List.mem_cons_of_mem _ hq))
    rw [pointsAt_cons hp, List.map_cons, List.map_cons, hrest]

theorem entries_lt (self : Ledger) : ∀ p ∈ self.slots.entries, p.2 < self.recs.length := by
  intro p hp
  exact self.slots_lt p.1 p.2 ((self.slots.mem_entries_iff p.1 p.2).mp hp)

theorem mem_points {self : Ledger} {p : VectorId × Embedding} :
    p ∈ self.points ↔ self.contents p.1 = some p.2 :=
  mem_pointsAt (fun _ => Iff.rfl)

theorem nodup_points_keys (self : Ledger) : (self.points.map Prod.fst).Nodup := by
  rw [points, map_fst_pointsAt self.entries_lt]
  exact self.slots.nodup_keys

theorem length_points (self : Ledger) : self.points.length = self.slots.len := by
  rw [← List.length_map Prod.fst, points, map_fst_pointsAt self.entries_lt, List.length_map]
  rfl

/-! ## Compaction -/

/-- The live slots in slot order. -/
def liveBySlot (self : Ledger) : List (VectorId × Nat) :=
  sortBy (fun a b => compare a.2 b.2) self.slots.entries

theorem mem_liveBySlot {self : Ledger} {p : VectorId × Nat} :
    p ∈ self.liveBySlot ↔ p ∈ self.slots.entries := by
  rw [liveBySlot, mem_sortBy]

/-- The live records alone, in slot order. -/
def compacted (self : Ledger) : Ledger := empty.add (self.pointsAt self.liveBySlot)

theorem map_fst_liveBySlot (self : Ledger) :
    (self.pointsAt self.liveBySlot).map Prod.fst = self.liveBySlot.map Prod.fst :=
  map_fst_pointsAt (fun p hp => self.entries_lt p (mem_liveBySlot.mp hp))

theorem nodup_liveBySlot (self : Ledger) : (self.liveBySlot.map Prod.fst).Nodup :=
  (((sortBy_perm _ _).map Prod.fst).nodup_iff).mpr self.slots.nodup_keys

/-- Compaction keeps the contents. -/
theorem contents_compacted (self : Ledger) (id : VectorId) :
    self.compacted.contents id = self.contents id := by
  have hkeys : ((self.pointsAt self.liveBySlot).map Prod.fst).Nodup := by
    rw [map_fst_liveBySlot]
    exact self.nodup_liveBySlot
  cases h : self.contents id with
  | some e =>
    have hmem : (id, e) ∈ self.pointsAt self.liveBySlot :=
      (mem_pointsAt (fun _ => mem_liveBySlot)).mpr h
    exact contents_add_of_mem empty hkeys hmem
  | none =>
    have hnot : id ∉ (self.pointsAt self.liveBySlot).map Prod.fst := by
      intro hid
      obtain ⟨⟨id', e⟩, hp, rfl⟩ := List.mem_map.mp hid
      have := (mem_pointsAt (fun _ => mem_liveBySlot)).mp hp
      rw [h] at this
      simp at this
    rw [compacted, contents_add_of_notMem empty hnot]
    rfl

end Ledger

end EidosDB
