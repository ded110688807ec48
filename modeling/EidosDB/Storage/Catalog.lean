import EidosDB.Lib.OrderedTable
import EidosDB.Storage.Manifest

/-! # The Catalog

    The manifest row and the table of slots, in one database.  A write
    transaction is one commit: all of its changes or none of them. -/

namespace EidosDB

open Bytes Effect

/-- The catalog's database.  A table is `none` until a transaction opens it
    for writing; the manifest table has one row, the slot keys are the 16
    bytes of an id. -/
structure CatalogDb where
  manifest : Option (Option (List Byte))
  slots : Option (OrderedTable VectorId Nat)

namespace CatalogDb

/-- A database file without tables. -/
def fresh : CatalogDb := { manifest := none, slots := none }

/-- A catalog that holds a manifest and slots. -/
def stored (manifest : Manifest) (slots : OrderedTable VectorId Nat) : CatalogDb :=
  { manifest := some (some manifest.toBytes), slots := some slots }

/-- `Catalog::read_manifest` -/
def readManifest (self : CatalogDb) : Except StorageError Manifest :=
  match self.manifest with
  | none => .error (.catalog "Table 'manifest' does not exist")
  | some none => .error (.corruption "missing manifest row")
  | some (some row) => Manifest.fromBytes row

/-- The slot table in a read transaction. -/
def slotTable (self : CatalogDb) : Except StorageError (OrderedTable VectorId Nat) :=
  match self.slots with
  | none => .error (.catalog "Table 'slots' does not exist")
  | some table => .ok table

/-- `Catalog::live_count` -/
def liveCount (self : CatalogDb) : Except StorageError Nat := do
  let table ← self.slotTable
  .ok table.len

/-- `Catalog::contains` -/
def contains (self : CatalogDb) (id : VectorId) : Except StorageError Bool := do
  let table ← self.slotTable
  .ok (table.get id).isSome

/-- `Catalog::live_slots` -/
def liveSlots (self : CatalogDb) : Except StorageError (List (VectorId × Nat)) := do
  let table ← self.slotTable
  .ok table.entries

/-- The manifest a transaction reads before it writes one back. -/
def currentManifest (self : CatalogDb) : Except StorageError Manifest :=
  match self.manifest.getD none with
  | none => .error (.corruption "missing manifest row")
  | some row => Manifest.fromBytes row

end CatalogDb

namespace Catalog

/-- `Catalog::create`: the database file is made if there is none, then one
    transaction writes the manifest and opens both tables. -/
def create (manifest : Manifest) : Effect StorageError (Option CatalogDb) Unit := do
  durable .commitFailure (fun db => some (db.getD .fresh))
  commit .commitFailure (fun db => db.map fun db =>
    { manifest := some (some manifest.toBytes), slots := some (db.slots.getD .empty) })

/-- `Catalog::open` -/
def openAt : Effect StorageError (Option CatalogDb) Manifest := do
  let file ← get
  match file with
  | none => throw (.catalog "I/O error: No such file or directory (os error 2)")
  | some db => liftExcept db.readManifest

/-- The transaction behind the slot writes: a new slot table and a new
    watermark. -/
def writeSlots (change : OrderedTable VectorId Nat → OrderedTable VectorId Nat)
    (newRecordCount : Nat) : Effect StorageError CatalogDb Unit := do
  let db ← get
  let manifest ← liftExcept db.currentManifest
  commit .commitFailure (fun db => .stored
    { manifest with recordCount := wrap64 newRecordCount } (change (db.slots.getD .empty)))

/-- `Catalog::insert_slots` -/
def insertSlots (items : List (VectorId × Nat)) (newRecordCount : Nat) :
    Effect StorageError CatalogDb Unit :=
  writeSlots (fun table => table.insertMany items) newRecordCount

/-- `Catalog::insert_slot` -/
def insertSlot (id : VectorId) (slot newRecordCount : Nat) : Effect StorageError CatalogDb Unit :=
  insertSlots [(id, slot)] newRecordCount

/-- `Catalog::replace_slots` -/
def replaceSlots (slots : List (VectorId × Nat)) (newRecordCount : Nat) :
    Effect StorageError CatalogDb Unit :=
  writeSlots (fun _ => .ofList slots) newRecordCount

/-- `Catalog::remove_slot` -/
def removeSlot (id : VectorId) : Effect StorageError CatalogDb Bool := do
  let db ← get
  let existed := ((db.slots.getD .empty).get id).isSome
  commit .commitFailure (fun db => { db with slots := some ((db.slots.getD .empty).erase id) })
  pure existed

end Catalog

/-! ## What the operations do to a stored catalog -/

namespace CatalogDb

variable (manifest : Manifest) (slots : OrderedTable VectorId Nat)

@[simp] theorem readManifest_stored : (stored manifest slots).readManifest = .ok manifest :=
  Manifest.fromBytes_toBytes manifest

@[simp] theorem currentManifest_stored : (stored manifest slots).currentManifest = .ok manifest :=
  Manifest.fromBytes_toBytes manifest

@[simp] theorem liveCount_stored : (stored manifest slots).liveCount = .ok slots.len := rfl

@[simp] theorem contains_stored (id : VectorId) :
    (stored manifest slots).contains id = .ok (slots.get id).isSome := rfl

@[simp] theorem liveSlots_stored : (stored manifest slots).liveSlots = .ok slots.entries := rfl

end CatalogDb

namespace Catalog

open CatalogDb

variable {manifest : Manifest} {slots : OrderedTable VectorId Nat}

theorem ends_create {w : World (Option CatalogDb)} (hstate : w.state = none) :
    ends (create manifest)
      (fun _ w' => w'.commits = w.commits + 1 ∧ w'.plan.how = w.plan.how ∧
        w'.state = some (stored manifest .empty))
      (fun r w' => Stopped w r w') w := by
  simp only [create, ends_bind]
  apply ends_durable_storage rfl
  · intro w₁ hlater hnew
    apply ends_commit_storage rfl
    · intro w₂ hcommits hhow hwritten
      refine ⟨by rw [hcommits, hlater.commits], hhow.trans hlater.how, ?_⟩
      rw [hwritten, hnew, hstate]
      rfl
    · intro r w₂ hstop _
      exact hstop.after hlater
  · intro r w₁ hstop _
    exact hstop

theorem ends_writeSlots (slots : OrderedTable VectorId Nat)
    {change : OrderedTable VectorId Nat → OrderedTable VectorId Nat}
    {newRecordCount : Nat} {w : World CatalogDb} (hstate : w.state = stored manifest slots) :
    ends (writeSlots change newRecordCount)
      (fun _ w' => w'.commits = w.commits + 1 ∧ w'.plan.how = w.plan.how ∧
        w'.state = stored { manifest with recordCount := wrap64 newRecordCount } (change slots))
      (fun r w' => Stopped w r w' ∧ w'.state = stored manifest slots) w := by
  simp only [writeSlots, ends_bind, ends_get, hstate, currentManifest_stored, liftExcept_ok,
    ends_pure]
  apply ends_commit_storage rfl
  · intro w' hcommits hhow hwritten
    refine ⟨hcommits, hhow, ?_⟩
    rw [hwritten, hstate]
    rfl
  · intro r w' hstop hkept
    exact ⟨hstop, by rw [hkept, hstate]⟩

theorem ends_removeSlot {id : VectorId} {w : World CatalogDb}
    (hstate : w.state = stored manifest slots) :
    ends (removeSlot id)
      (fun existed w' => w'.commits = w.commits + 1 ∧ w'.plan.how = w.plan.how ∧
        existed = (slots.get id).isSome ∧ w'.state = stored manifest (slots.erase id))
      (fun r w' => Stopped w r w' ∧ w'.state = stored manifest slots) w := by
  simp only [removeSlot, ends_bind, ends_get, hstate]
  apply ends_commit_storage rfl
  · intro w' hcommits hhow hwritten
    refine ⟨hcommits, hhow, rfl, ?_⟩
    rw [hwritten, hstate]
    rfl
  · intro r w' hstop hkept
    exact ⟨hstop, by rw [hkept, hstate]⟩

end Catalog

end EidosDB
