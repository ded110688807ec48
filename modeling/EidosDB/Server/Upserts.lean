import EidosDB.Query.Refinement
import EidosDB.Server.Service

/-! # Upserts are All or a Prefix

    A batch is checked as a whole before its first write: so a batch that is
    refused changes nothing, and one that is accepted is the upserts of its
    points.  A stream is checked chunk by chunk: what it leaves is what the
    chunks before the first invalid one leave as batches of their own, and a
    stream without an invalid chunk is one batch of all its points. -/

namespace EidosDB

open Effect

variable {I J L P : Type} (ports : KindPorts I J L P) (order : HashOrder) (orders : UpsertOrders)

/-! ## What the calls do -/

/-- The upserts of points as calls one after the other, all of which
    succeed. -/
inductive UpsertedTo : Nat → CollectionKind I J L P → List DecodedPoint →
    CollectionKind I J L P → Prop where
  | nil (n : Nat) (c : CollectionKind I J L P) : UpsertedTo n c [] c
  | cons {n : Nat} {c c₁ c' : CollectionKind I J L P} {d : DecodedPoint} {rest : List DecodedPoint}
      (first : c.upsert ports (orders n) d = (.ok (), c₁)) (tail : UpsertedTo (n + 1) c₁ rest c') :
      UpsertedTo n c (d :: rest) c'

/-- Stores that do not fail: an upsert of the right dimension succeeds. -/
def Serves (dimension : Dimension) : Nat → CollectionKind I J L P → List DecodedPoint → Prop
  | _, _, [] => True
  | n, c, d :: rest => d.embedding.dimension = dimension.get →
      ∃ c₁, c.upsert ports (orders n) d = (.ok (), c₁) ∧ Serves dimension (n + 1) c₁ rest

/-- The points all have the dimension. -/
def AllOf (dimension : Dimension) (points : List DecodedPoint) : Prop :=
  ∀ p ∈ points, p.embedding.dimension = dimension.get

instance (dimension : Dimension) (points : List DecodedPoint) : Decidable (AllOf dimension points) :=
  inferInstanceAs (Decidable (∀ p ∈ points, p.embedding.dimension = dimension.get))

/-- The points of a chunk that a stream into a collection may carry, as they
    came and decoded: it has a batch, the batch names no other collection, and
    its points decode and have the dimension. -/
def chunkOf (name : String) (dimension : Dimension) :
    StreamItem → Option (List Pb.Point × List DecodedPoint)
  | .ok { batch := some batch } =>
    match batch.points.mapM (pointFromPb order) with
    | .ok points =>
      if (batch.collection = "" ∨ batch.collection = name) ∧ AllOf dimension points then
        some (batch.points, points)
      else none
    | .error _ => none
  | _ => none

/-- The chunks before the first invalid one. -/
def validChunks (name : String) (dimension : Dimension) :
    List StreamItem → List (List Pb.Point × List DecodedPoint)
  | [] => []
  | item :: rest =>
    match chunkOf order name dimension item with
    | some chunk => chunk :: validChunks name dimension rest
    | none => []

/-- Batches one after the other, whatever they answer. -/
def batchUpserts : Nat → Handles I J L P → List Pb.PointBatch → Handles I J L P
  | _, handles, [] => handles
  | n, handles, batch :: rest =>
    batchUpserts (n + batch.points.length)
      (batchUpsert ports order (fun i => orders (n + i)) handles { batch := some batch }).2 rest

/-! ## The loop over points -/

section Points

variable {ports orders} {dimension : Dimension} {n : Nat} {c c' : CollectionKind I J L P}
  {points : List DecodedPoint}

theorem upsertedTo_of_upsertEach (h : upsertEach ports orders n points c = (.ok (), c')) :
    UpsertedTo ports orders n c points c' := by
  induction points generalizing n c with
  | nil =>
    cases h
    exact .nil n _
  | cons d rest ih =>
    rw [upsertEach] at h
    split at h
    next c₁ hfirst => exact .cons hfirst (ih h)
    all_goals simp at h

theorem upsertEach_append {rest : List DecodedPoint}
    (h : upsertEach ports orders n points c = (.ok (), c')) :
    upsertEach ports orders n (points ++ rest) c =
      upsertEach ports orders (n + points.length) rest c' := by
  induction points generalizing n c with
  | nil =>
    cases h
    rfl
  | cons d tail ih =>
    rw [List.cons_append, upsertEach]
    rw [upsertEach] at h
    split at h
    next c₁ hfirst =>
      rw [ih h, List.length_cons, Nat.add_right_comm, Nat.add_assoc]
    all_goals simp at h

/-- Stores that do not fail take all points of the right dimension. -/
theorem upsertEach_of_serves (h : Serves ports orders dimension n c points)
    (hall : AllOf dimension points) :
    ∃ c', upsertEach ports orders n points c = (.ok (), c') := by
  induction points generalizing n c with
  | nil => exact ⟨c, rfl⟩
  | cons d rest ih =>
    obtain ⟨hd, hrest⟩ := List.forall_mem_cons.mp hall
    obtain ⟨c₁, hfirst, hserves⟩ := h hd
    rw [upsertEach, hfirst]
    exact ih hserves hrest

theorem upsertEach_of_append {rest : List DecodedPoint}
    (h : upsertEach ports orders n (points ++ rest) c = (.ok (), c')) :
    ∃ c₁, upsertEach ports orders n points c = (.ok (), c₁) ∧
      upsertEach ports orders (n + points.length) rest c₁ = (.ok (), c') := by
  induction points generalizing n c with
  | nil => exact ⟨c, rfl, h⟩
  | cons d tail ih =>
    rw [List.cons_append, upsertEach] at h
    split at h
    next c₁ hfirst =>
      obtain ⟨c₂, htail, hrest⟩ := ih h
      rw [upsertEach, hfirst, List.length_cons, Nat.add_comm tail.length 1, ← Nat.add_assoc]
      exact ⟨c₂, htail, hrest⟩
    all_goals simp at h

theorem serves_append {rest : List DecodedPoint}
    (h : Serves ports orders dimension n c (points ++ rest)) (hall : AllOf dimension points)
    (hdone : upsertEach ports orders n points c = (.ok (), c')) :
    Serves ports orders dimension (n + points.length) c' rest := by
  induction points generalizing n c with
  | nil =>
    cases hdone
    exact h
  | cons d tail ih =>
    obtain ⟨hd, htail⟩ := List.forall_mem_cons.mp hall
    obtain ⟨c₁, hfirst, hserves⟩ := h hd
    rw [upsertEach, hfirst] at hdone
    have hrest := ih hserves htail hdone
    rwa [Nat.add_right_comm] at hrest

theorem serves_of_append {rest : List DecodedPoint}
    (h : Serves ports orders dimension n c (points ++ rest)) :
    Serves ports orders dimension n c points := by
  induction points generalizing n c with
  | nil => exact trivial
  | cons d tail ih =>
    intro hd
    obtain ⟨c₁, hfirst, hserves⟩ := h hd
    exact ⟨c₁, hfirst, ih hserves⟩

/-- The numbering of the upserts may start anywhere. -/
theorem upsertEach_shift (m : Nat) :
    upsertEach ports (fun i => orders (m + i)) n points c = upsertEach ports orders (m + n) points c := by
  induction points generalizing n c with
  | nil => rfl
  | cons d rest ih =>
    rw [upsertEach, upsertEach]
    split
    · exact ih
    all_goals rfl

theorem ensureDimension_eq_ok : ensureDimension points dimension.get = .ok () ↔
    AllOf dimension points := by
  unfold ensureDimension AllOf
  split
  next got hfind =>
    obtain ⟨hne, hmem⟩ : got ≠ dimension.get ∧ _ := ⟨by simpa using List.find?_some hfind,
      List.mem_of_find?_eq_some hfind⟩
    obtain ⟨p, hp, rfl⟩ := List.mem_map.mp hmem
    exact iff_of_false (by simp) fun hall => hne (hall p hp)
  next hfind =>
    refine iff_of_true rfl fun p hp => ?_
    have hnot := List.find?_eq_none.mp hfind _ (List.mem_map_of_mem hp)
    simpa using hnot

theorem ensureDimension_cases (dimension : Dimension) (points : List DecodedPoint) :
    (AllOf dimension points ∧ ensureDimension points dimension.get = .ok ()) ∨
    (¬ AllOf dimension points ∧ ∃ status, ensureDimension points dimension.get = .error status) := by
  by_cases hall : AllOf dimension points
  · exact Or.inl ⟨hall, ensureDimension_eq_ok.mpr hall⟩
  · cases hensure : ensureDimension points dimension.get with
    | ok u => exact absurd (ensureDimension_eq_ok.mp hensure) hall
    | error status => exact Or.inr ⟨hall, status, rfl⟩

end Points

/-! ## Batches -/

section Batches

variable {ports order orders} {handles : Handles I J L P} {handle : CollectionHandle I J L P}
  {batch : Pb.PointBatch} {points : List DecodedPoint} {c' : CollectionKind I J L P}

theorem insert_get {name : String} (h : handles.get name = some handle) :
    handles.insert name handle = handles := by
  apply OrderedTable.ext_get
  intro name'
  rw [OrderedTable.get_insert]
  split
  next heq => rw [heq, h]
  next => rfl

variable (ports orders batch) in
/-- A batch that decodes, for a collection that is there, is written or has a
    point of another dimension. -/
theorem batchUpsert_eq (hdecode : batch.points.mapM (pointFromPb order) = .ok points)
    (hget : handles.get batch.collection = some handle) :
    (AllOf handle.dimension points ∧
      batchUpsert ports order orders handles { batch := some batch } =
        ((runBlocking (upsertEach ports orders 0 points) handle).1.map fun _ =>
            { upserted := points.length },
          handles.insert batch.collection
            (runBlocking (upsertEach ports orders 0 points) handle).2)) ∨
    (¬ AllOf handle.dimension points ∧ ∃ status,
      batchUpsert ports order orders handles { batch := some batch } = (.error status, handles)) := by
  have hbatch : batchUpsertFromPb order { batch := some batch } = .ok (batch.collection, points) := by
    show pointBatchFromPb order batch = _
    rw [pointBatchFromPb, hdecode]
    rfl
  unfold batchUpsert
  rw [hbatch]
  dsimp only
  rw [hget]
  dsimp only
  rcases ensureDimension_cases handle.dimension points with ⟨hall, hok⟩ | ⟨hnot, status, herror⟩
  · rw [hok]
    exact Or.inl ⟨hall, rfl⟩
  · rw [herror]
    exact Or.inr ⟨hnot, status, rfl⟩

theorem runBlocking_poisoned {α : Type} (h : handle.poisoned = true)
    (f : CollectionKind I J L P → Outcome Status α × CollectionKind I J L P) :
    runBlocking f handle = (.error ⟨.internal, "lock poisoned"⟩, handle) := if_pos h

theorem runBlocking_ok {α : Type} (h : handle.poisoned = false)
    {f : CollectionKind I J L P → Outcome Status α × CollectionKind I J L P} {a : α}
    (hf : f handle.inner = (.ok a, c')) :
    runBlocking f handle = (.ok a, { handle with inner := c' }) := by
  unfold runBlocking
  rw [h, if_neg Bool.false_ne_true, hf]

end Batches

/-! ## Streams -/

section Streams

variable {ports order orders} {handles : Handles I J L P} {handle : CollectionHandle I J L P}
  {name : String} {dimension : Dimension}

/-- What a valid chunk is. -/
theorem chunkOf_eq_some {item : StreamItem} {chunk : List Pb.Point × List DecodedPoint} :
    chunkOf order name dimension item = some chunk ↔ ∃ batch, item = .ok { batch := some batch } ∧
      batch.points.mapM (pointFromPb order) = .ok chunk.2 ∧ batch.points = chunk.1 ∧
      (batch.collection = "" ∨ batch.collection = name) ∧ AllOf dimension chunk.2 := by
  unfold chunkOf
  split
  next batch =>
    cases hdecode : batch.points.mapM (pointFromPb order) with
    | error e => simp [hdecode]
    | ok points =>
      dsimp only
      split
      next hvalid =>
        rw [Option.some.injEq]
        constructor
        · rintro rfl
          exact ⟨batch, rfl, hdecode, rfl, hvalid⟩
        · rintro ⟨batch', hitem, hdecode', hwire, -⟩
          cases hitem
          rw [hdecode] at hdecode'
          cases hdecode'
          exact Prod.ext hwire rfl
      next hinvalid =>
        refine iff_of_false (by simp) ?_
        rintro ⟨batch', hitem, hdecode', -, hvalid⟩
        cases hitem
        rw [hdecode] at hdecode'
        cases hdecode'
        exact hinvalid hvalid
  next hno =>
    refine iff_of_false (by simp) ?_
    rintro ⟨batch, rfl, -⟩
    exact hno batch rfl

theorem mem_validChunks {stream : List StreamItem} {chunk : List Pb.Point × List DecodedPoint}
    (h : chunk ∈ validChunks order name dimension stream) :
    chunk.1.mapM (pointFromPb order) = .ok chunk.2 ∧ AllOf dimension chunk.2 := by
  induction stream with
  | nil => exact absurd h List.not_mem_nil
  | cons item rest ih =>
    rw [validChunks] at h
    split at h
    next first hfirst =>
      rcases List.mem_cons.mp h with rfl | h
      · obtain ⟨batch, -, hdecode, hwire, -, hall⟩ := chunkOf_eq_some.mp hfirst
        exact ⟨hwire ▸ hdecode, hall⟩
      · exact ih h
    next => exact absurd h List.not_mem_nil

/-- The points of the valid chunks. -/
def chunkPoints (chunks : List (List Pb.Point × List DecodedPoint)) : List DecodedPoint :=
  chunks.flatMap Prod.snd

variable (ports order orders name) in
/-- A pending chunk with a point of another dimension ends the loop. -/
theorem bulkLoop_refused (n : Nat) {decoded : List DecodedPoint} (stream : List StreamItem)
    (hnot : ¬ AllOf handle.dimension decoded) :
    ∃ status, bulkLoop ports order orders name handle n decoded stream = (.error status, handle) := by
  rcases ensureDimension_cases handle.dimension decoded with ⟨hall, -⟩ | ⟨-, status, herror⟩
  · exact absurd hall hnot
  · refine ⟨status, ?_⟩
    rw [bulkLoop.eq_def]
    dsimp only
    rw [herror]

variable (ports order orders name) in
/-- A poisoned lock ends it too. -/
theorem bulkLoop_poisoned (n : Nat) (hpoisoned : handle.poisoned = true)
    (decoded : List DecodedPoint) (stream : List StreamItem) :
    ∃ status, bulkLoop ports order orders name handle n decoded stream = (.error status, handle) := by
  rcases ensureDimension_cases handle.dimension decoded with ⟨-, hok⟩ | ⟨hnot, -⟩
  · refine ⟨⟨.internal, "lock poisoned"⟩, ?_⟩
    rw [bulkLoop.eq_def]
    dsimp only
    rw [hok]
    dsimp only
    rw [runBlocking_poisoned hpoisoned]
  · exact bulkLoop_refused ports order orders name n stream hnot

/-- Where the loop goes once the pending chunk is written. -/
theorem bulkLoop_written (hsound : handle.poisoned = false) {n : Nat} {decoded : List DecodedPoint}
    (hall : AllOf handle.dimension decoded) {c₁ : CollectionKind I J L P}
    (hwritten : upsertEach ports orders n decoded handle.inner = (.ok (), c₁)) (item : StreamItem)
    (rest : List StreamItem) :
    (∃ chunk, chunkOf order name handle.dimension item = some chunk ∧
      bulkLoop ports order orders name handle n decoded (item :: rest) =
        bulkLoop ports order orders name { handle with inner := c₁ } (n + decoded.length) chunk.2
          rest) ∨
    (chunkOf order name handle.dimension item = none ∧ ∃ status,
      bulkLoop ports order orders name handle n decoded (item :: rest) =
        (.error status, { handle with inner := c₁ })) := by
  have hloop := bulkLoop.eq_def ports order orders name handle n decoded (item :: rest)
  dsimp only at hloop
  rw [ensureDimension_eq_ok.mpr hall] at hloop
  dsimp only at hloop
  rw [runBlocking_ok hsound hwritten] at hloop
  rw [hloop]
  cases item with
  | error status => exact Or.inr ⟨rfl, status, rfl⟩
  | ok next =>
    obtain ⟨batch⟩ := next
    cases batch with
    | none => exact Or.inr ⟨rfl, _, rfl⟩
    | some batch =>
      unfold chunkOf bulkUpsertFromPb pointBatchFromPb
      dsimp only
      cases batch.points.mapM (pointFromPb order) with
      | error e => exact Or.inr ⟨rfl, _, rfl⟩
      | ok points =>
        dsimp only [bind, Except.bind]
        by_cases hname : batch.collection = "" ∨ batch.collection = name
        · have hnot : ¬ (batch.collection ≠ "" ∧ batch.collection ≠ name) := by
            rw [← not_or]
            exact not_not.mpr hname
          rw [if_neg hnot]
          by_cases hpoints : AllOf handle.dimension points
          · rw [if_pos ⟨hname, hpoints⟩]
            exact Or.inl ⟨_, rfl, rfl⟩
          · rw [if_neg fun hboth => hpoints hboth.2]
            exact Or.inr ⟨rfl, bulkLoop_refused _ _ _ _ _ rest hpoints⟩
        · rw [if_neg fun hboth => hname hboth.1, if_pos (not_or.mp hname)]
          exact Or.inr ⟨rfl, _, rfl⟩

/-- What the loop leaves, from a pending chunk of the right dimension: the
    points of that chunk and of the valid ones after it are written, and it
    answers with their number exactly when no chunk is left. -/
theorem bulkLoop_spec (hsound : handle.poisoned = false) {n : Nat} {decoded : List DecodedPoint}
    {stream : List StreamItem} (hall : AllOf handle.dimension decoded)
    (hserves : Serves ports orders handle.dimension n handle.inner
      (decoded ++ chunkPoints (validChunks order name handle.dimension stream))) :
    ∃ c', upsertEach ports orders n
        (decoded ++ chunkPoints (validChunks order name handle.dimension stream)) handle.inner =
          (.ok (), c') ∧
      (bulkLoop ports order orders name handle n decoded stream).2 = { handle with inner := c' } ∧
      ((validChunks order name handle.dimension stream).length = stream.length →
        (bulkLoop ports order orders name handle n decoded stream).1 = .ok { upserted := n +
          (decoded ++ chunkPoints (validChunks order name handle.dimension stream)).length }) ∧
      ((validChunks order name handle.dimension stream).length ≠ stream.length →
        ∃ status, (bulkLoop ports order orders name handle n decoded stream).1 = .error status) := by
  induction stream generalizing handle n decoded with
  | nil =>
    rw [show chunkPoints (validChunks order name handle.dimension []) = [] from rfl,
      List.append_nil] at hserves ⊢
    obtain ⟨c', hwritten⟩ := upsertEach_of_serves hserves hall
    refine ⟨c', hwritten, ?_, ?_, fun hne => absurd rfl hne⟩
    all_goals
      rw [bulkLoop, ensureDimension_eq_ok.mpr hall]
      dsimp only
      rw [runBlocking_ok hsound hwritten]
    exact fun _ => rfl
  | cons item rest ih =>
    obtain ⟨c₁, hwritten⟩ := upsertEach_of_serves (serves_of_append hserves) hall
    rcases bulkLoop_written hsound hall hwritten item rest with
      ⟨chunk, hchunk, hloop⟩ | ⟨hnone, status, hloop⟩
    · have hchunks : validChunks order name handle.dimension (item :: rest) =
          chunk :: validChunks order name handle.dimension rest := by
        rw [validChunks, hchunk]
      obtain ⟨-, hdims⟩ := mem_validChunks (hchunks ▸ List.mem_cons_self)
      rw [hchunks, chunkPoints, List.flatMap_cons, ← chunkPoints] at hserves ⊢
      have hnext := serves_append hserves hall hwritten
      have hstill : ({ handle with inner := c₁ } : CollectionHandle I J L P).poisoned = false := hsound
      obtain ⟨c', hrest, hleft, hdone, hcut⟩ := ih hstill hdims hnext
      rw [hloop]
      refine ⟨c', (upsertEach_append hwritten).trans hrest, hleft, ?_, ?_⟩
      · intro hlen
        rw [hdone (Nat.succ.inj hlen), Nat.add_assoc, ← List.length_append]
      · intro hlen
        exact hcut fun heq => hlen (congrArg Nat.succ heq)
    · have hchunks : validChunks order name handle.dimension (item :: rest) = [] := by
        rw [validChunks, hnone]
      rw [hchunks, show chunkPoints [] = [] from rfl, List.append_nil, hloop]
      refine ⟨c₁, hwritten, rfl, fun hlen => ?_, fun _ => ⟨status, rfl⟩⟩
      rw [List.length_cons] at hlen
      exact absurd hlen (Nat.succ_ne_zero _).symm

/-! ## Streams as batches -/

theorem insert_insert (name : String) (handle' : CollectionHandle I J L P) :
    (handles.insert name handle).insert name handle' = handles.insert name handle' := by
  apply OrderedTable.ext_get
  intro name'
  rw [OrderedTable.get_insert, OrderedTable.get_insert, OrderedTable.get_insert]
  split <;> rfl

theorem length_of_mapM {wire : List Pb.Point} {points : List DecodedPoint}
    (h : wire.mapM (pointFromPb order) = .ok points) : points.length = wire.length := by
  induction wire generalizing points with
  | nil =>
    cases h
    rfl
  | cons point rest ih =>
    rw [List.mapM_cons] at h
    cases hpoint : pointFromPb order point with
    | error e =>
      rw [hpoint] at h
      cases h
    | ok d =>
      cases hrest : rest.mapM (pointFromPb order) with
      | error e =>
        rw [hpoint, hrest] at h
        cases h
      | ok tail =>
        rw [hpoint, hrest] at h
        cases h
        rw [List.length_cons, List.length_cons, ih hrest]

/-- The points of valid chunks decode together. -/
theorem mapM_chunks {chunks : List (List Pb.Point × List DecodedPoint)}
    (h : ∀ chunk ∈ chunks, chunk.1.mapM (pointFromPb order) = .ok chunk.2) :
    (chunks.flatMap Prod.fst).mapM (pointFromPb order) = .ok (chunkPoints chunks) := by
  induction chunks with
  | nil => rfl
  | cons chunk rest ih =>
    obtain ⟨hchunk, hrest⟩ := List.forall_mem_cons.mp h
    rw [chunkPoints, List.flatMap_cons, List.flatMap_cons, List.mapM_append, hchunk, ih hrest]
    rfl

/-- Batches of valid points write them. -/
theorem batchUpserts_eq (hsound : handle.poisoned = false) {n : Nat}
    {chunks : List (List Pb.Point × List DecodedPoint)}
    (h : ∀ chunk ∈ chunks, chunk.1.mapM (pointFromPb order) = .ok chunk.2 ∧
      AllOf handle.dimension chunk.2)
    (hget : handles.get name = some handle) {c' : CollectionKind I J L P}
    (hwritten : upsertEach ports orders n (chunkPoints chunks) handle.inner = (.ok (), c')) :
    batchUpserts ports order orders n handles (chunks.map fun chunk => ⟨name, chunk.1⟩) =
      handles.insert name { handle with inner := c' } := by
  induction chunks generalizing n handles handle with
  | nil =>
    cases hwritten
    exact (insert_get hget).symm
  | cons chunk rest ih =>
    obtain ⟨⟨hdecode, hall⟩, hrest⟩ := List.forall_mem_cons.mp h
    rw [chunkPoints, List.flatMap_cons, ← chunkPoints] at hwritten
    obtain ⟨c₁, hfirst, htail⟩ := upsertEach_of_append hwritten
    rw [List.map_cons, batchUpserts]
    rcases batchUpsert_eq ports (fun i => orders (n + i)) ⟨name, chunk.1⟩ hdecode hget with ⟨-, hbatch⟩ | ⟨hnot, -⟩
    · have hshift : upsertEach ports (fun i => orders (n + i)) 0 chunk.2 handle.inner =
          (.ok (), c₁) := by rw [upsertEach_shift, Nat.add_zero, hfirst]
      have hstill : ({ handle with inner := c₁ } : CollectionHandle I J L P).poisoned = false := hsound
      rw [hbatch, runBlocking_ok hsound hshift]
      dsimp only
      rw [← length_of_mapM hdecode, ih hstill hrest (handles.get_insert_self name _) htail,
        insert_insert]
    · exact absurd hall hnot

/-- A poisoned lock lets no batch through. -/
theorem batchUpserts_poisoned (hpoisoned : handle.poisoned = true) {n : Nat}
    {chunks : List (List Pb.Point × List DecodedPoint)}
    (h : ∀ chunk ∈ chunks, chunk.1.mapM (pointFromPb order) = .ok chunk.2)
    (hget : handles.get name = some handle) :
    batchUpserts ports order orders n handles (chunks.map fun chunk => ⟨name, chunk.1⟩) =
      handles := by
  induction chunks generalizing n with
  | nil => rfl
  | cons chunk rest ih =>
    obtain ⟨hdecode, hrest⟩ := List.forall_mem_cons.mp h
    rw [List.map_cons, batchUpserts]
    rcases batchUpsert_eq ports (fun i => orders (n + i)) ⟨name, chunk.1⟩ hdecode hget with ⟨-, hbatch⟩ | ⟨-, status, hbatch⟩
    · rw [hbatch, runBlocking_poisoned hpoisoned, insert_get hget]
      exact ih hrest
    · rw [hbatch]
      exact ih hrest

end Streams

/-! ## The calls -/

/-- What a batch leaves and answers. -/
structure BatchLaw (handles : Handles I J L P) (request : Pb.BatchUpsertRequest) : Prop where
  /-- An error leaves every collection as it was. -/
  refused : ∀ status, (batchUpsert ports order orders handles request).1 = .error status →
    (batchUpsert ports order orders handles request).2 = handles
  /-- Success is the number of points, and their upserts one by one. -/
  written : ∀ response, (batchUpsert ports order orders handles request).1 = .ok response →
    ∃ batch points handle c', request.batch = some batch ∧
      batch.points.mapM (pointFromPb order) = .ok points ∧
      handles.get batch.collection = some handle ∧ AllOf handle.dimension points ∧
      response.upserted = batch.points.length ∧
      UpsertedTo ports orders 0 handle.inner points c' ∧
      (batchUpsert ports order orders handles request).2 =
        handles.insert batch.collection { handle with inner := c' }
  /-- A batch without a mistake is accepted, while the lock is sound. -/
  accepted : ∀ batch points handle, request.batch = some batch →
    batch.points.mapM (pointFromPb order) = .ok points →
    handles.get batch.collection = some handle → AllOf handle.dimension points →
    handle.poisoned = false →
    ∃ response, (batchUpsert ports order orders handles request).1 = .ok response

/-- What a stream into a collection leaves and answers. -/
structure StreamLaw (handles : Handles I J L P) (name : String)
    (handle : CollectionHandle I J L P) (stream : List StreamItem) : Prop where
  /-- It leaves what the chunks before the first invalid one leave as
      batches. -/
  left : (bulkUpsert ports order orders handles stream).2 =
    batchUpserts ports order orders 0 handles
      ((validChunks order name handle.dimension stream).map fun chunk => ⟨name, chunk.1⟩)
  /-- Success is the number of points of a stream without an invalid chunk,
      and then one batch of all of them. -/
  whole : ∀ response, (bulkUpsert ports order orders handles stream).1 = .ok response →
    (validChunks order name handle.dimension stream).length = stream.length ∧
    response.upserted = (chunkPoints (validChunks order name handle.dimension stream)).length ∧
    batchUpsert ports order orders handles
        ⟨some ⟨name, (validChunks order name handle.dimension stream).flatMap Prod.fst⟩⟩ =
      (.ok { upserted := response.upserted }, (bulkUpsert ports order orders handles stream).2)
  /-- A stream without an invalid chunk is accepted, while the lock is
      sound. -/
  accepted : (validChunks order name handle.dimension stream).length = stream.length →
    handle.poisoned = false →
    ∃ response, (bulkUpsert ports order orders handles stream).1 = .ok response

/-- The collection that the first message of a stream names. -/
def streamTarget : List StreamItem → Option String
  | .ok { batch := some batch } :: _ => some batch.collection
  | _ => none

section Calls

variable {ports order orders} {handles : Handles I J L P} {handle : CollectionHandle I J L P}
  {name : String} {stream : List StreamItem}

theorem batchUpsert_law {request : Pb.BatchUpsertRequest}
    (hserves : ∀ name points handle, batchUpsertFromPb order request = .ok (name, points) →
      handles.get name = some handle →
      Serves ports orders handle.dimension 0 handle.inner points) :
    BatchLaw ports order orders handles request := by
  obtain ⟨batch⟩ := request
  -- what cannot be decoded, or names no collection, is refused at once
  have hrefused : ∀ status, batchUpsert ports order orders handles ⟨batch⟩ = (.error status, handles) →
      (∀ b points handle, batch = some b → b.points.mapM (pointFromPb order) = .ok points →
        handles.get b.collection = some handle → ¬ AllOf handle.dimension points) →
      BatchLaw ports order orders handles ⟨batch⟩ := by
    intro status hbatch hinvalid
    refine ⟨fun _ _ => by rw [hbatch], fun response hok => ?_, ?_⟩
    · rw [hbatch] at hok
      cases hok
    · intro b points handle hb hdecode hget hall
      exact absurd hall (hinvalid b points handle hb hdecode hget)
  cases batch with
  | none => exact hrefused _ rfl fun b _ _ hb => by cases hb
  | some batch =>
    cases hdecode : batch.points.mapM (pointFromPb order) with
    | error e =>
      apply hrefused (conversionErrorToStatus e)
      · unfold batchUpsert batchUpsertFromPb pointBatchFromPb
        dsimp only
        rw [hdecode]
        rfl
      · intro b points _ hb hpoints
        cases hb
        rw [hdecode] at hpoints
        cases hpoints
    | ok points =>
      have hfrom : batchUpsertFromPb order ⟨some batch⟩ = .ok (batch.collection, points) := by
        show pointBatchFromPb order batch = _
        rw [pointBatchFromPb, hdecode]
        rfl
      cases hget : handles.get batch.collection with
      | none =>
        apply hrefused (notFound batch.collection)
        · unfold batchUpsert
          rw [hfrom]
          dsimp only
          rw [hget]
        · intro b _ _ hb _ hsome
          cases hb
          rw [hget] at hsome
          cases hsome
      | some handle =>
        rcases batchUpsert_eq ports orders batch hdecode hget with
          ⟨hall, hbatch⟩ | ⟨hnot, status, hbatch⟩
        · obtain ⟨c', hwritten⟩ := upsertEach_of_serves
            (hserves batch.collection points handle hfrom hget) hall
          cases hpoisoned : handle.poisoned with
          | true =>
            rw [runBlocking_poisoned hpoisoned, insert_get hget] at hbatch
            refine ⟨fun _ _ => by rw [hbatch], fun response hok => ?_, ?_⟩
            · rw [hbatch] at hok
              cases hok
            · intro b _ handle' hb _ hget' _ hsound
              cases hb
              rw [hget] at hget'
              cases hget'
              rw [hpoisoned] at hsound
              cases hsound
          | false =>
            rw [runBlocking_ok hpoisoned hwritten] at hbatch
            refine ⟨fun status herror => ?_, fun response hok => ?_, fun _ _ _ _ _ _ _ _ =>
              ⟨{ upserted := points.length }, by rw [hbatch]; rfl⟩⟩
            · rw [hbatch] at herror
              cases herror
            · rw [hbatch] at hok
              cases hok
              exact ⟨batch, points, handle, c', rfl, hdecode, hget, hall, length_of_mapM hdecode,
                upsertedTo_of_upsertEach hwritten, by rw [hbatch]⟩
        · apply hrefused status hbatch
          intro b points' handle' hb hpoints hhandle
          cases hb
          rw [hdecode] at hpoints
          cases hpoints
          rw [hget] at hhandle
          cases hhandle
          exact hnot

variable (ports order orders) in
/-- A stream whose first chunk is pending is the loop. -/
theorem bulkUpsert_cases (htarget : streamTarget stream = some name)
    (hget : handles.get name = some handle) :
    (∃ chunk rest, validChunks order name handle.dimension stream =
        chunk :: validChunks order name handle.dimension rest ∧
      stream.length = rest.length + 1 ∧ AllOf handle.dimension chunk.2 ∧
      bulkUpsert ports order orders handles stream =
        ((bulkLoop ports order orders name handle 0 chunk.2 rest).1,
          handles.insert name (bulkLoop ports order orders name handle 0 chunk.2 rest).2)) ∨
    (validChunks order name handle.dimension stream = [] ∧ 0 < stream.length ∧ ∃ status,
      bulkUpsert ports order orders handles stream = (.error status, handles)) := by
  match stream, htarget with
  | .ok { batch := some batch } :: rest, htarget =>
    cases htarget
    unfold bulkUpsert bulkUpsertFromPb pointBatchFromPb
    rw [validChunks]
    unfold chunkOf
    dsimp only
    cases batch.points.mapM (pointFromPb order) with
    | error e => exact Or.inr ⟨rfl, Nat.succ_pos _, _, rfl⟩
    | ok points =>
      dsimp only [bind, Except.bind]
      rw [hget]
      dsimp only
      by_cases hall : AllOf handle.dimension points
      · rw [if_pos ⟨Or.inr rfl, hall⟩]
        exact Or.inl ⟨_, rest, rfl, rfl, hall, rfl⟩
      · obtain ⟨status, hloop⟩ := bulkLoop_refused ports order orders batch.collection 0
          rest hall
        rw [if_neg fun hboth => hall hboth.2, hloop, insert_get hget]
        exact Or.inr ⟨rfl, Nat.succ_pos _, status, rfl⟩

theorem bulkUpsert_law (htarget : streamTarget stream = some name)
    (hget : handles.get name = some handle)
    (hserves : Serves ports orders handle.dimension 0 handle.inner
      (chunkPoints (validChunks order name handle.dimension stream))) :
    StreamLaw ports order orders handles name handle stream := by
  have hvalid : ∀ chunk ∈ validChunks order name handle.dimension stream,
      chunk.1.mapM (pointFromPb order) = .ok chunk.2 ∧ AllOf handle.dimension chunk.2 :=
    fun chunk hchunk => mem_validChunks hchunk
  rcases bulkUpsert_cases ports order orders htarget hget with
    ⟨chunk, rest, hchunks, hlen, hall, hbulk⟩ | ⟨hchunks, hlen, status, hbulk⟩
  · rw [hchunks, chunkPoints, List.flatMap_cons, ← chunkPoints] at hserves
    cases hpoisoned : handle.poisoned with
    | true =>
      -- neither call gets the lock
      obtain ⟨status, hloop⟩ := bulkLoop_poisoned ports order orders name 0 hpoisoned
        chunk.2 rest
      rw [hloop, insert_get hget] at hbulk
      refine ⟨?_, fun response hok => ?_, fun _ hsound => ?_⟩
      · rw [hbulk, batchUpserts_poisoned hpoisoned (fun c hc => (hvalid c hc).1) hget]
      · rw [hbulk] at hok
        cases hok
      · rw [hpoisoned] at hsound
        cases hsound
    | false =>
      obtain ⟨c', hwritten, hleft, hdone, hcut⟩ := bulkLoop_spec hpoisoned hall hserves
      have hpoints : chunkPoints (validChunks order name handle.dimension stream) =
          chunk.2 ++ chunkPoints (validChunks order name handle.dimension rest) := by
        rw [hchunks, chunkPoints, List.flatMap_cons, ← chunkPoints]
      rw [← hpoints] at hwritten hdone
      rw [hleft] at hbulk
      refine ⟨?_, fun response hok => ?_, fun hwhole _ => ?_⟩
      · rw [hbulk, batchUpserts_eq hpoisoned hvalid hget hwritten]
      · rw [hbulk] at hok
        -- a stream with a bad chunk is not answered with a count
        have hwhole : (validChunks order name handle.dimension rest).length = rest.length := by
          by_contra hne
          obtain ⟨status, herror⟩ := hcut hne
          rw [herror] at hok
          cases hok
        rw [hdone hwhole] at hok
        cases hok
        refine ⟨by rw [hchunks, List.length_cons, hwhole, hlen], Nat.zero_add _, ?_⟩
        rcases batchUpsert_eq ports orders
            ⟨name, (validChunks order name handle.dimension stream).flatMap Prod.fst⟩
            (mapM_chunks fun c hc => (hvalid c hc).1) hget with ⟨-, hbatch⟩ | ⟨hnot, -⟩
        · rw [hbatch, runBlocking_ok hpoisoned hwritten, hbulk]
          dsimp only
          rw [Nat.zero_add]
          rfl
        · refine absurd (fun p hp => ?_) hnot
          obtain ⟨c, hc, hpc⟩ := List.mem_flatMap.mp hp
          exact (hvalid c hc).2 p hpc
      · rw [hchunks, List.length_cons, hlen] at hwhole
        rw [hbulk]
        exact ⟨_, hdone (Nat.succ.inj hwhole)⟩
  · refine ⟨by rw [hbulk, hchunks]; rfl, fun response hok => ?_, fun hwhole _ => ?_⟩
    · rw [hbulk] at hok
      cases hok
    · rw [hchunks, List.length_nil] at hwhole
      omega

/-- A stream for no collection changes nothing. -/
theorem bulkUpsert_untargeted (h : ∀ name, streamTarget stream = some name → handles.get name = none) :
    ∃ status, bulkUpsert ports order orders handles stream = (.error status, handles) := by
  match stream with
  | [] => exact ⟨_, rfl⟩
  | .error status :: _ => exact ⟨status, rfl⟩
  | .ok { batch := none } :: _ => exact ⟨_, rfl⟩
  | .ok { batch := some batch } :: rest =>
    have hnone := h batch.collection rfl
    unfold bulkUpsert bulkUpsertFromPb pointBatchFromPb
    dsimp only
    cases batch.points.mapM (pointFromPb order) with
    | error e => exact ⟨_, rfl⟩
    | ok points =>
      dsimp only [bind, Except.bind]
      rw [hnone]
      exact ⟨_, rfl⟩

end Calls

/-- **Upserts are all or a prefix.**  With stores that do not fail, a batch
    that is refused leaves all collections as they were, and one that is
    accepted is the upserts of its points in order; a stream leaves what its
    chunks before the first invalid one leave as batches, succeeds only
    without an invalid chunk, and is then one batch of all its points.  A
    stream that names no collection there is leaves everything as it was. -/
theorem upserts_prefix_or_all (handles : Handles I J L P) :
    (∀ request, (∀ name points handle, batchUpsertFromPb order request = .ok (name, points) →
        handles.get name = some handle →
        Serves ports orders handle.dimension 0 handle.inner points) →
      BatchLaw ports order orders handles request) ∧
    (∀ name handle stream, streamTarget stream = some name → handles.get name = some handle →
      Serves ports orders handle.dimension 0 handle.inner
        (chunkPoints (validChunks order name handle.dimension stream)) →
      StreamLaw ports order orders handles name handle stream) ∧
    ∀ stream, (∀ name, streamTarget stream = some name → handles.get name = none) →
      ∃ status, bulkUpsert ports order orders handles stream = (.error status, handles) :=
  ⟨fun _ => batchUpsert_law, fun _ _ _ => bulkUpsert_law, fun _ => bulkUpsert_untargeted⟩

/-- The stores in memory. -/
def memoryKinds : KindPorts FlatIndex HnswIndex InMemoryLexicalIndex InMemoryPayloadStore where
  flat := memoryPorts (FlatIndex.port .small) .ascii .small
  hnsw := memoryPorts (HnswIndex.port .small .base2) .ascii .small

/-- An empty collection of vectors with one component. -/
def emptyNotes :
    CollectionHandle FlatIndex HnswIndex InMemoryLexicalIndex InMemoryPayloadStore where
  inner := .flat ⟨.new .dotProduct .one, .new, .new⟩
  poisoned := false
  dimension := .one

/-- A vector without a document or a payload. -/
def barePoint (vector : List F32) : Pb.Point :=
  { id := List.replicate 16 0, vector := vector, document := none, payload := none }

/-- A chunk, and one of another dimension after it. -/
def mixedStream : List StreamItem :=
  [.ok ⟨some ⟨"notes", [barePoint [.zero]]⟩⟩, .ok ⟨some ⟨"", [barePoint [.zero, .zero]]⟩⟩]

theorem upserts_prefix_or_all_mixedStream :
    (bulkUpsert memoryKinds .ascending (fun _ => (.ascending, .ascending))
      (.ofList [("notes", emptyNotes)]) mixedStream).2 =
    batchUpserts memoryKinds .ascending (fun _ => (.ascending, .ascending)) 0
      (.ofList [("notes", emptyNotes)]) [⟨"notes", [barePoint [.zero]]⟩] := by
  have hchunks : validChunks .ascending "notes" .one mixedStream =
      [([barePoint [.zero]], [⟨nilId, ⟨[.zero], by decide, by decide⟩, none, none⟩])] := by
    decide +kernel
  have hlaw := (upserts_prefix_or_all memoryKinds .ascending (fun _ => (.ascending, .ascending))
    (.ofList [("notes", emptyNotes)])).2.1 "notes" emptyNotes mixedStream rfl rfl <| by
      rw [show emptyNotes.dimension = .one from rfl, hchunks]
      exact fun _ => ⟨_, rfl, trivial⟩
  have hleft := hlaw.left
  rwa [show emptyNotes.dimension = .one from rfl, hchunks] at hleft

end EidosDB
