import EidosDB.Lib.SharedObjects
import EidosDB.Server.Requests
import EidosDB.Server.Upserts

/-! # Calls Beside Each Other

    The service answers its callers beside each other.  A call finds the
    handle of its collection in the map of the registry and works under the
    lock of the collection; the map's lock is not held meanwhile.  So the
    collection may be dropped, and its name given away, before the call gets
    to it: the call then works on what it has found, whose files stay open.

    A stream takes the lock once for each of its chunks.  The list of all
    collections is put together from many lookups; it is not treated here. -/

namespace EidosDB

open Effect

namespace EidosDbHandler

variable {I J L P T : Type} (stores : KindStores I J L P) (ops : F64Ops)

/-! ## The parts of a call -/

/-- A collection as a call finds it. -/
structure Found (I J L P : Type) where
  metadata : CollectionMeta
  handle : CollectionHandle I J L P

/-- A server that has this collection alone. -/
def Found.view (self : Found I J L P) : View I J L P where
  metas := OrderedTable.empty.insert self.metadata.name self.metadata
  handles := OrderedTable.empty.insert self.metadata.name self.handle

/-- Where `bulk_upsert` is in its stream: `decoded` is the pending chunk. -/
structure Chunk where
  order : HashOrder
  orders : UpsertOrders
  collection : String
  upserted : Nat
  decoded : List DecodedPoint
  stream : List StreamItem

/-- What `bulk_upsert` begins with, unless its first message is refused. -/
def Chunk.first (order : HashOrder) (orders : UpsertOrders) : List StreamItem → Option Chunk
  | .ok first :: rest =>
    match bulkUpsertFromPb order first with
    | .ok (collection, points) => some ⟨order, orders, collection, 0, points, rest⟩
    | .error _ => none
  | _ => none

/-- One turn of the loop of `bulk_upsert`: the chunk is written, and the next
    message is read. -/
def Chunk.write (self : Chunk) (handle : CollectionHandle I J L P) :
    (Except Status Pb.BulkUpsertResponse ⊕ Chunk) × CollectionHandle I J L P :=
  match ensureDimension self.decoded handle.dimension.get with
  | .error status => (.inl (.error status), handle)
  | .ok () =>
    match runBlocking (upsertEach stores.toKindPorts self.orders self.upserted self.decoded)
        handle with
    | (.error status, handle) => (.inl (.error status), handle)
    | (.ok (), handle) =>
      let upserted := self.upserted + self.decoded.length
      match self.stream with
      | [] => (.inl (.ok { upserted := upserted }), handle)
      | .error status :: _ => (.inl (.error status), handle)
      | .ok next :: rest =>
        match bulkUpsertFromPb self.order next with
        | .error e => (.inl (.error (conversionErrorToStatus e)), handle)
        | .ok (chunkCollection, points) =>
          if chunkCollection ≠ "" ∧ chunkCollection ≠ self.collection then
            (.inl (.error
              ⟨.invalidArgument, "bulk_upsert stream changed collection mid-stream"⟩), handle)
          else
            (.inr { self with upserted := upserted, decoded := points, stream := rest }, handle)

/-- A call that has found its collection, or what is left of a stream. -/
inductive Job where
  | whole (request : Request)
  | chunk (next : Chunk)

/-- The chunk that a job of a stream is at. -/
def Job.pending : Job → Option Chunk
  | .chunk c => some c
  | .whole (.bulkUpsert order orders stream) => Chunk.first order orders stream
  | .whole _ => none

/-- The next part of a job, under the lock of the collection.  No reply means
    that the job goes on. -/
def Job.part (job : Job) (found : Found I J L P) : Option Reply × Option Job × Found I J L P :=
  match job.pending, job with
  | some c, _ =>
    match c.write stores found.handle with
    | (.inl reply, handle) => (some (reply.map .bulkUpsert), none, { found with handle := handle })
    | (.inr next, handle) => (none, some (.chunk next), { found with handle := handle })
  | none, .whole request =>
    match call stores ops found.view request with
    | some (reply, handles) =>
      (some reply, none,
        { found with handle := (handles.get found.metadata.name).getD found.handle })
    | none => (none, none, found)
  | none, .chunk _ => (none, none, found)

/-! ## Arrivals -/

/-- The collection that a call looks up.  A request that is refused before
    does not get to the registry. -/
def lookup : Request → Option String
  | .createCollection _ | .dropCollection _ | .listCollections _ => none
  | .describeCollection request => some request.name
  | .upsert _ _ request => some request.collection
  | .batchUpsert order _ request => (batchUpsertFromPb order request).toOption.map Prod.fst
  | .bulkUpsert order orders stream => (Chunk.first order orders stream).map (·.collection)
  | .delete _ request => some request.collection
  | .deleteByFilter _ _ _ request => (deleteByFilterFromPb request).toOption.map Prod.fst
  | .search _ request => (searchQueryFromPb request).toOption.map Prod.fst
  | .searchHybrid _ request => (hybridQueryFromPb request).toOption.map Prod.fst
  | .compact request => some request.collection

/-- What happens next on the server. -/
inductive Arrival (T I J L P : Type) where
  /-- The caller's call looks up its collection. -/
  | request (caller : T) (request : Request)
  /-- The caller's call gets the lock of what it has found. -/
  | locked (caller : T)
  /-- The end of `create_collection`: the handle is put into the map. -/
  | registered (found : Found I J L P)
  /-- The beginning of `drop_collection`: the handle is taken out of it. -/
  | unregistered (name : String)

def Arrival.action : Arrival T I J L P →
    Option (SharedObjects.Action String T Job (Found I J L P))
  | .request caller r => (lookup r).map fun name => .call caller name (.whole r)
  | .locked caller => some (.proceed caller)
  | .registered found => some (.put found.metadata.name found)
  | .unregistered name => some (.take name)

abbrev Line (T I J L P : Type) :=
  SharedObjects.Entry String T Job (Option Reply) (Found I J L P)

/-- What callers that work beside each other leave, and what they are told. -/
def concurrently [DecidableEq T] (arrivals : List (Arrival T I J L P)) :
    SharedObjects.State String T Job (Found I J L P) × List (Line T I J L P) :=
  SharedObjects.run (Job.part stores ops) 0 (arrivals.filterMap Arrival.action) .empty

/-! ## One call after the other -/

/-- The lines are what a server that does one thing after the other tells, and
    the view is what it leaves.  The chunks of a stream are things by
    themselves. -/
inductive Serial : View I J L P → List (Line T I J L P) → View I J L P → Prop where
  | done (view : View I J L P) : Serial view [] view
  | missing {view view' : View I J L P} {name : String} {start time : Nat} {caller : T}
      {request : Request} {rest : List (Line T I J L P)}
      (answered : call stores ops view request = some (.error (notFound name), view.handles))
      (after : Serial view rest view') :
      Serial view (⟨name, start, time, .missing caller (.whole request)⟩ :: rest) view'
  | reply {view view' : View I J L P} {name : String} {start time : Nat} {caller : T} {id : Nat}
      {request : Request} {reply : Reply} {handles : Handles I J L P}
      {rest : List (Line T I J L P)}
      (answered : call stores ops view request = some (reply, handles))
      (after : Serial { view with handles := handles } rest view') :
      Serial view (⟨name, start, time, .part caller id (.whole request) (some reply)⟩ :: rest) view'
  | goesOn {view view' : View I J L P} {name : String} {start time : Nat} {caller : T} {id : Nat}
      {job : Job} {c next : Chunk} {handle handle' : CollectionHandle I J L P}
      {rest : List (Line T I J L P)} (pending : job.pending = some c)
      (found : view.handles.get name = some handle)
      (written : c.write stores handle = (.inr next, handle'))
      (after : Serial { view with handles := view.handles.insert name handle' } rest view') :
      Serial view (⟨name, start, time, .part caller id job none⟩ :: rest) view'
  | ended {view view' : View I J L P} {name : String} {start time : Nat} {caller : T} {id : Nat}
      {c : Chunk} {handle handle' : CollectionHandle I J L P}
      {reply : Except Status Pb.BulkUpsertResponse} {rest : List (Line T I J L P)}
      (found : view.handles.get name = some handle)
      (written : c.write stores handle = (.inl reply, handle'))
      (after : Serial { view with handles := view.handles.insert name handle' } rest view') :
      Serial view
        (⟨name, start, time, .part caller id (.chunk c) (some (reply.map .bulkUpsert))⟩ :: rest)
        view'
  | registered {view view' : View I J L P} {name : String} {start time : Nat}
      {found : Found I J L P} {rest : List (Line T I J L P)}
      (after : Serial
        { metas := view.metas.insert name found.metadata
          handles := view.handles.insert name found.handle } rest view') :
      Serial view (⟨name, start, time, .put found⟩ :: rest) view'
  | unregistered {view view' : View I J L P} {name : String} {start time : Nat}
      {rest : List (Line T I J L P)}
      (after : Serial
        { metas := view.metas.erase name, handles := view.handles.erase name } rest view') :
      Serial view
        (⟨name, start, time, .taken (view.metas.get name).isSome⟩ :: rest) view'

variable {stores ops}

/-! ## What a call makes of the collection it has found -/

theorem bulkLoop_of_write {c : Chunk} {handle handle' : CollectionHandle I J L P}
    {reply : Except Status Pb.BulkUpsertResponse}
    (h : c.write stores handle = (.inl reply, handle')) :
    bulkLoop stores.toKindPorts c.order c.orders c.collection handle c.upserted c.decoded c.stream =
      (reply, handle') := by
  obtain ⟨order, orders, collection, upserted, decoded, stream⟩ := c
  unfold Chunk.write at h
  unfold bulkLoop
  dsimp only at h ⊢
  cases hdims : ensureDimension decoded handle.dimension.get with
  | error status =>
    simp only [hdims] at h ⊢
    cases h
    rfl
  | ok =>
    simp only [hdims] at h ⊢
    generalize runBlocking (upsertEach stores.toKindPorts orders upserted decoded) handle = r at h ⊢
    obtain ⟨outcome, written⟩ := r
    cases outcome with
    | error status =>
      cases h
      rfl
    | ok =>
      cases stream with
      | nil =>
        cases h
        rfl
      | cons item rest =>
        cases item with
        | error status =>
          cases h
          rfl
        | ok next =>
          dsimp only at h ⊢
          cases hnext : bulkUpsertFromPb order next with
          | error e =>
            simp only [hnext] at h ⊢
            cases h
            rfl
          | ok p =>
            simp only [hnext] at h ⊢
            by_cases hother : p.1 ≠ "" ∧ p.1 ≠ collection
            · rw [if_pos hother] at h ⊢
              cases h
              rfl
            · rw [if_neg hother] at h
              cases h

theorem bulkUpsert_of_first {order : HashOrder} {orders : UpsertOrders} {stream : List StreamItem}
    {c : Chunk} (hfirst : Chunk.first order orders stream = some c) (handles : Handles I J L P) :
    bulkUpsert stores.toKindPorts order orders handles stream =
      match handles.get c.collection with
      | none => (.error (notFound c.collection), handles)
      | some handle =>
        let r := bulkLoop stores.toKindPorts c.order c.orders c.collection handle c.upserted
          c.decoded c.stream
        (r.1, handles.insert c.collection r.2) := by
  unfold Chunk.first at hfirst
  split at hfirst
  · split at hfirst
    · next collection points hdecoded =>
      cases hfirst
      cases hget : handles.get collection with
      | none => simp only [bulkUpsert, hdecoded, hget]
      | some handle => simp only [bulkUpsert, hdecoded, hget]
    · cases hfirst
  · cases hfirst

theorem decoded_of_lookup {ε α : Type} {r : Except ε (String × α)} {name : String}
    (h : r.toOption.map Prod.fst = some name) : ∃ a, r = .ok (name, a) := by
  cases r with
  | error => cases h
  | ok p =>
    cases h
    exact ⟨p.2, rfl⟩

/-- A call whose collection is not there. -/
theorem call_of_missing {request : Request} {name : String} (hlookup : lookup request = some name)
    {view : View I J L P} (hmetas : view.metas.get name = none)
    (hhandles : view.handles.get name = none) :
    call stores ops view request = some (.error (notFound name), view.handles) := by
  cases request with
  | createCollection => cases hlookup
  | dropCollection => cases hlookup
  | listCollections => cases hlookup
  | describeCollection request =>
    cases hlookup
    simp only [call, describeCollection, hmetas]
    rfl
  | upsert order orders request =>
    cases hlookup
    simp only [call, upsert, hhandles]
    rfl
  | batchUpsert order orders request =>
    obtain ⟨points, hdecoded⟩ := decoded_of_lookup hlookup
    simp only [call, batchUpsert, hdecoded, hhandles]
    rfl
  | bulkUpsert order orders stream =>
    obtain ⟨c, hfirst, rfl⟩ := Option.map_eq_some_iff.mp hlookup
    simp only [call, bulkUpsert_of_first hfirst, hhandles]
    rfl
  | delete order request =>
    cases hlookup
    simp only [call, delete, hhandles]
    rfl
  | deleteByFilter matching each orders request =>
    obtain ⟨filter, hdecoded⟩ := decoded_of_lookup hlookup
    simp only [call, deleteByFilter, hdecoded, hhandles]
    rfl
  | search matching request =>
    obtain ⟨query, hdecoded⟩ := decoded_of_lookup hlookup
    simp only [call, search, hdecoded, hhandles]
    rfl
  | searchHybrid orders request =>
    obtain ⟨query, hdecoded⟩ := decoded_of_lookup hlookup
    simp only [call, searchHybrid, hdecoded, hhandles]
    rfl
  | compact request =>
    cases hlookup
    simp only [call, compact, hhandles]
    rfl

/-- What a call makes of its collection does not depend on the others. -/
theorem call_of_found {request : Request} {found : Found I J L P}
    (hlookup : lookup request = some found.metadata.name) {view : View I J L P}
    (hmetas : view.metas.get found.metadata.name = some found.metadata)
    (hhandles : view.handles.get found.metadata.name = some found.handle) :
    call stores ops view request = (call stores ops found.view request).map fun r =>
      (r.1, view.handles.insert found.metadata.name
        ((r.2.get found.metadata.name).getD found.handle)) := by
  have hmetas' : found.view.metas.get found.metadata.name = some found.metadata :=
    OrderedTable.get_insert_self _ _ _
  have hhandles' : found.view.handles.get found.metadata.name = some found.handle :=
    OrderedTable.get_insert_self _ _ _
  cases request with
  | createCollection => cases hlookup
  | dropCollection => cases hlookup
  | listCollections => cases hlookup
  | describeCollection request =>
    have hname : request.name = found.metadata.name := Option.some.inj hlookup
    simp only [call, describeCollection, hname, hmetas, hmetas', info, hhandles, hhandles',
      Option.map_some, Option.getD_some, insert_get hhandles]
  | upsert order orders request =>
    have hname : request.collection = found.metadata.name := Option.some.inj hlookup
    simp only [call, upsert, hname, hhandles, hhandles']
    cases request.point with
    | none => simp only [hhandles', Option.map_some, Option.getD_some, insert_get hhandles]
    | some point =>
      by_cases hdim : point.vector.length ≠ found.handle.dimension.get
      · simp only [if_pos hdim, hhandles', Option.map_some, Option.getD_some, insert_get hhandles]
      · simp only [if_neg hdim]
        cases pointFromPb order point with
        | error e => simp only [hhandles', Option.map_some, Option.getD_some, insert_get hhandles]
        | ok decoded =>
          simp only [Option.map_some, OrderedTable.get_insert_self, Option.getD_some]
  | batchUpsert order orders request =>
    obtain ⟨points, hdecoded⟩ := decoded_of_lookup hlookup
    simp only [call, batchUpsert, hdecoded, hhandles, hhandles']
    cases ensureDimension points found.handle.dimension.get with
    | error status => simp only [hhandles', Option.map_some, Option.getD_some, insert_get hhandles]
    | ok => simp only [Option.map_some, OrderedTable.get_insert_self, Option.getD_some]
  | bulkUpsert order orders stream =>
    obtain ⟨c, hfirst, hname⟩ := Option.map_eq_some_iff.mp hlookup
    simp only [call, bulkUpsert_of_first hfirst, hname, hhandles, hhandles', Option.map_some,
      OrderedTable.get_insert_self, Option.getD_some]
  | delete order request =>
    have hname : request.collection = found.metadata.name := Option.some.inj hlookup
    simp only [call, delete, hname, hhandles, hhandles']
    cases vectorIdFromPb request.id with
    | error e => simp only [hhandles', Option.map_some, Option.getD_some, insert_get hhandles]
    | ok id => simp only [Option.map_some, OrderedTable.get_insert_self, Option.getD_some]
  | deleteByFilter matching each orders request =>
    obtain ⟨filter, hdecoded⟩ := decoded_of_lookup hlookup
    simp only [call, deleteByFilter, hdecoded, hhandles, hhandles', Option.map_some,
      OrderedTable.get_insert_self, Option.getD_some]
  | search matching request =>
    obtain ⟨query, hdecoded⟩ := decoded_of_lookup hlookup
    simp only [call, search, hdecoded, hhandles, hhandles', Option.map_some, Option.getD_some,
      insert_get hhandles]
  | searchHybrid orders request =>
    obtain ⟨query, hdecoded⟩ := decoded_of_lookup hlookup
    simp only [call, searchHybrid, hdecoded, hhandles, hhandles', Option.map_some,
      Option.getD_some, insert_get hhandles]
  | compact request =>
    have hname : request.collection = found.metadata.name := Option.some.inj hlookup
    simp only [call, compact, hname, hhandles, hhandles', Option.map_some,
      OrderedTable.get_insert_self, Option.getD_some]

variable (stores ops) in
theorem call_isSome {request : Request} {name : String} (hlookup : lookup request = some name)
    (view : View I J L P) : (call stores ops view request).isSome = true := by
  cases request with
  | createCollection => cases hlookup
  | dropCollection => cases hlookup
  | _ => rfl

/-! ## The order of the calls -/

/-- The map of the server. -/
structure Shows (view : View I J L P) (t : String → Option (Found I J L P)) : Prop where
  metas : ∀ name, view.metas.get name = (t name).map Found.metadata
  handles : ∀ name, view.handles.get name = (t name).map Found.handle
  named : ∀ name found, t name = some found → found.metadata.name = name

/-- What is under one name changes. -/
theorem Shows.change {view view' : View I J L P} {t : String → Option (Found I J L P)}
    (h : Shows view t) {name : String} {new : Option (Found I J L P)}
    (hmetas : ∀ name', view'.metas.get name' =
      if name' = name then new.map Found.metadata else view.metas.get name')
    (hhandles : ∀ name', view'.handles.get name' =
      if name' = name then new.map Found.handle else view.handles.get name')
    (hnamed : ∀ found, new = some found → found.metadata.name = name) :
    Shows view' (Function.update t name new) := by
  refine ⟨fun name' => ?_, fun name' => ?_, fun name' found hget => ?_⟩
  all_goals by_cases heq : name' = name
  · rw [hmetas, if_pos heq, heq, Function.update_self]
  · rw [hmetas, if_neg heq, Function.update_of_ne heq]
    exact h.metas name'
  · rw [hhandles, if_pos heq, heq, Function.update_self]
  · rw [hhandles, if_neg heq, Function.update_of_ne heq]
    exact h.handles name'
  · rw [heq, Function.update_self] at hget
    exact (hnamed found hget).trans heq.symm
  · rw [Function.update_of_ne heq] at hget
    exact h.named name' found hget

theorem Shows.update {view : View I J L P} {t : String → Option (Found I J L P)}
    (h : Shows view t) {name : String} {found : Found I J L P} (hget : t name = some found)
    (handle : CollectionHandle I J L P) :
    Shows { view with handles := view.handles.insert name handle }
      (Function.update t name (some { found with handle := handle })) := by
  refine h.change (fun name' => ?_) (fun _ => OrderedTable.get_insert _ _ _ _)
    (fun found' hnew => ?_)
  · -- the metadata are what they were
    by_cases heq : name' = name
    · rw [if_pos heq, heq]
      show view.metas.get name = _
      rw [h.metas, hget]
      rfl
    · rw [if_neg heq]
  · cases hnew
    exact h.named name found hget

theorem Shows.register {view : View I J L P} {t : String → Option (Found I J L P)}
    (h : Shows view t) (found : Found I J L P) :
    Shows
      { metas := view.metas.insert found.metadata.name found.metadata
        handles := view.handles.insert found.metadata.name found.handle }
      (Function.update t found.metadata.name (some found)) := by
  refine h.change (fun _ => OrderedTable.get_insert _ _ _ _)
    (fun _ => OrderedTable.get_insert _ _ _ _) fun found' hnew => ?_
  cases hnew
  rfl

theorem Shows.unregister {view : View I J L P} {t : String → Option (Found I J L P)}
    (h : Shows view t) (name : String) :
    Shows { metas := view.metas.erase name, handles := view.handles.erase name }
      (Function.update t name none) :=
  h.change (fun _ => OrderedTable.get_erase _ _ _) (fun _ => OrderedTable.get_erase _ _ _) nofun

/-- The call of a request that looks this name up. -/
def Job.Calls (name : String) (job : Job) : Prop :=
  ∃ request, job = .whole request ∧ lookup request = some name

/-- Such a call, or what is left of one. -/
def Job.On (name : String) (job : Job) : Prop := job.Calls name ∨ ∃ c, job = .chunk c

/-- A handle under the name of its metadata. -/
def Found.Under (name : String) (found : Found I J L P) : Prop := found.metadata.name = name

variable (stores ops) in
/-- What a part of a job can do: it is a call as a whole, or a turn of the loop
    of a stream after which the job goes on, or the last of a stream. -/
theorem part_cases {found : Found I J L P} {job : Job} (hon : job.On found.metadata.name) :
    (∃ request reply handle, job = .whole request ∧
      job.part stores ops found = (some reply, none, { found with handle := handle }) ∧
      ∀ view : View I J L P, view.metas.get found.metadata.name = some found.metadata →
        view.handles.get found.metadata.name = some found.handle →
        call stores ops view request =
          some (reply, view.handles.insert found.metadata.name handle)) ∨
    (∃ c next handle, job.pending = some c ∧ c.write stores found.handle = (.inr next, handle) ∧
      job.part stores ops found = (none, some (.chunk next), { found with handle := handle })) ∨
    ∃ c reply handle, job = .chunk c ∧ c.write stores found.handle = (.inl reply, handle) ∧
      job.part stores ops found =
        (some (reply.map .bulkUpsert), none, { found with handle := handle }) := by
  rcases hon with ⟨request, rfl, hlookup⟩ | ⟨c, rfl⟩
  · -- a call is one part, but for that of a stream
    cases hpending : (Job.whole request).pending with
    | none =>
      left
      obtain ⟨⟨reply, handles⟩, hcall⟩ := Option.isSome_iff_exists.mp
        (call_isSome stores ops hlookup found.view)
      refine ⟨request, reply, (handles.get found.metadata.name).getD found.handle, rfl, ?_,
        fun view hmetas hhandles => ?_⟩
      · unfold Job.part
        rw [hpending]
        simp only [hcall]
      · rw [call_of_found hlookup hmetas hhandles, hcall]
        rfl
    | some c =>
      cases request with
      | bulkUpsert order orders stream =>
        have hfirst : Chunk.first order orders stream = some c := hpending
        have hname : c.collection = found.metadata.name := by
          have : (Chunk.first order orders stream).map (·.collection) = _ := hlookup
          rw [hfirst] at this
          exact Option.some.inj this
        have hpart : (Job.whole (.bulkUpsert order orders stream)).part stores ops found =
            match c.write stores found.handle with
            | (.inl reply, handle) =>
              (some (reply.map .bulkUpsert), none, { found with handle := handle })
            | (.inr next, handle) =>
              (none, some (.chunk next), { found with handle := handle }) := by
          unfold Job.part
          rw [hpending]
        cases hwrite : c.write stores found.handle with
        | mk outcome handle =>
          rw [hwrite] at hpart
          cases outcome with
          | inl reply =>
            -- the first chunk is the last: the loop of the call ends with it too
            left
            refine ⟨_, _, handle, rfl, hpart, fun view _ hhandles => ?_⟩
            have hloop := bulkLoop_of_write hwrite
            simp only [call, bulkUpsert_of_first hfirst, hname, hhandles]
            rw [← hname] at *
            simp only [hloop]
          | inr next => exact Or.inr (Or.inl ⟨c, next, handle, rfl, hwrite, hpart⟩)
      | _ => cases hpending
  · right
    have hpart : (Job.chunk c).part stores ops found =
        match c.write stores found.handle with
        | (.inl reply, handle) =>
          (some (reply.map .bulkUpsert), none, { found with handle := handle })
        | (.inr next, handle) => (none, some (.chunk next), { found with handle := handle }) := rfl
    cases hwrite : c.write stores found.handle with
    | mk outcome handle =>
      rw [hwrite] at hpart
      cases outcome with
      | inl reply => exact Or.inr ⟨c, reply, handle, rfl, hwrite, hpart⟩
      | inr next => exact Or.inl ⟨c, next, handle, rfl, hwrite, hpart⟩

/-- A job that goes on is that of a stream. -/
theorem next_of_part {found : Found I J L P} {job job' : Job}
    (h : (job.part stores ops found).2.1 = some job') : ∃ c, job' = .chunk c := by
  unfold Job.part at h
  split at h
  · split at h
    · cases h
    · next next _ _ =>
      cases h
      exact ⟨next, rfl⟩
  · split at h <;> cases h
  · cases h

/-- Lines that come from a map come from a server. -/
theorem serial_of_sequential {lines : List (Line T I J L P)}
    {t t' : String → Option (Found I J L P)}
    (h : SharedObjects.Sequential (Job.part stores ops) lines t t')
    (hlines : ∀ e ∈ lines, e.Concerns Job.Calls Job.On Found.Under) {view : View I J L P}
    (hshows : Shows view t) :
    ∃ view', Serial stores ops view lines view' ∧ Shows view' t' := by
  induction lines generalizing t view with
  | nil =>
    obtain rfl : t' = t := h
    exact ⟨view, .done view, hshows⟩
  | cons e rest ih =>
    obtain ⟨t₁, hanswers, hrest⟩ := h
    have hconcerns := hlines e List.mem_cons_self
    have ih' := fun view' => @ih t₁ hrest (fun e he => hlines e (List.mem_cons_of_mem _ he)) view'
    obtain ⟨name, start, time, what⟩ := e
    cases what with
    | missing caller job =>
      obtain ⟨request, rfl, hlookup⟩ := hconcerns
      obtain ⟨hnone, rfl⟩ := hanswers
      obtain ⟨view', hserial, hshows'⟩ := ih' view hshows
      have hmetas : view.metas.get name = none := by
        rw [hshows.metas, hnone]
        rfl
      have hhandles : view.handles.get name = none := by
        rw [hshows.handles, hnone]
        rfl
      exact ⟨view', .missing (call_of_missing hlookup hmetas hhandles) hserial, hshows'⟩
    | part caller id job answer =>
      obtain ⟨found, hget, rfl, rfl⟩ := hanswers
      obtain rfl := hshows.named name found hget
      have hmetas : view.metas.get found.metadata.name = some found.metadata := by
        rw [hshows.metas, hget]
        rfl
      have hhandles : view.handles.get found.metadata.name = some found.handle := by
        rw [hshows.handles, hget]
        rfl
      rcases part_cases stores ops hconcerns with
        ⟨request, reply, handle, rfl, hpart, hcall⟩ | ⟨c, next, handle, hpending, hwrite, hpart⟩ |
        ⟨c, reply, handle, rfl, hwrite, hpart⟩
      all_goals
        rw [hpart] at ih' ⊢
        obtain ⟨view', hserial, hshows'⟩ := ih' _ (hshows.update hget handle)
      · exact ⟨view', .reply (hcall view hmetas hhandles) hserial, hshows'⟩
      · exact ⟨view', .goesOn hpending hhandles hwrite hserial, hshows'⟩
      · exact ⟨view', .ended hhandles hwrite hserial, hshows'⟩
    | put found =>
      obtain rfl : found.metadata.name = name := hconcerns
      obtain rfl : t₁ = Function.update t found.metadata.name (some found) := hanswers
      obtain ⟨view', hserial, hshows'⟩ := ih' _ (hshows.register found)
      exact ⟨view', .registered hserial, hshows'⟩
    | taken existed =>
      obtain ⟨hexisted, rfl⟩ := hanswers
      obtain ⟨view', hserial, hshows'⟩ := ih' _ (hshows.unregister name)
      have hsame : (view.metas.get name).isSome = existed := by
        rw [hexisted, hshows.metas, Option.isSome_map]
      exact ⟨view', hsame ▸ .unregistered hserial, hshows'⟩

/-- **Calls beside each other are calls after each other.**  Whatever callers
    ask for and whenever they get their locks, while collections are created
    and dropped, there is an order in which a server that does one thing after
    the other tells them the same and comes to the same collections.  A call
    that was over before another began comes before it. -/
theorem concurrently_serializes [DecidableEq T] (arrivals : List (Arrival T I J L P)) :
    ∃ order view, order.Perm (concurrently stores ops arrivals).2 ∧
      Serial stores ops { metas := .empty, handles := .empty } order view ∧
      Shows view (concurrently stores ops arrivals).1.table ∧
      order.Pairwise (fun line line' => line.start ≤ line'.time) ∧
      ∀ id, order.filter (·.on id) = (concurrently stores ops arrivals).2.filter (·.on id) := by
  obtain ⟨order, hperm, hsequential, htime, hin⟩ := SharedObjects.exists_order
    (Job.part stores ops) (arrivals.filterMap Arrival.action)
  have hlines : ∀ e ∈ order, e.Concerns Job.Calls Job.On Found.Under := by
    intro e he
    refine SharedObjects.concerns_of_mem_run (fun _ _ => Or.inl) ?_ ?_ ?_ ?_ e
      (hperm.mem_iff.mp he)
    · exact fun _ _ _ _ _ hnext => Or.inr (next_of_part hnext)
    · intro caller name job hmem
      obtain ⟨arrival, -, haction⟩ := List.mem_filterMap.mp hmem
      cases arrival with
      | request caller' request =>
        obtain ⟨name', hlookup, haction⟩ := Option.map_eq_some_iff.mp haction
        cases haction
        exact ⟨request, rfl, hlookup⟩
      | locked => cases haction
      | registered => cases haction
      | unregistered => cases haction
    · intro name found hmem
      obtain ⟨arrival, -, haction⟩ := List.mem_filterMap.mp hmem
      cases arrival with
      | request caller' request =>
        obtain ⟨name', -, haction⟩ := Option.map_eq_some_iff.mp haction
        cases haction
      | locked => cases haction
      | registered found' =>
        cases haction
        rfl
      | unregistered => cases haction
    · exact fun _ _ h => nomatch h
  have hempty : Shows (I := I) (J := J) (L := L) (P := P)
      { metas := .empty, handles := .empty } fun _ => none :=
    ⟨fun _ => rfl, fun _ => rfl, fun _ _ h => nomatch h⟩
  obtain ⟨view, hserial, hshows⟩ := serial_of_sequential hsequential hlines hempty
  exact ⟨order, view, hperm, hserial, hshows, htime, hin⟩

end EidosDbHandler

end EidosDB
