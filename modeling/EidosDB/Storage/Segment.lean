import EidosDB.Storage.Manifest

/-! # The Vector Segment

    An append-only file of `f32` records of one width behind a 32-byte
    header.  Reads go through a memory map of the file as it was at the last
    `remap`; writes go to the end of the file. -/

namespace EidosDB

open Bytes Effect

/-! ## Files -/

/-- The bytes at a path, if a file is there. -/
abbrev File := Option (List Byte)

/-- No file holds more bytes than a signed 64-bit offset can address. -/
def maxFileLen : Nat := 9223372036854775807

namespace File

/-- `OpenOptions::create_new` -/
def createNew : Effect StorageError File Unit := do
  let file ← get
  if file.isSome then throw (.io .alreadyExists)
  else durable .ioFailure (fun _ => some [])

/-- `OpenOptions::open` without `create` -/
def openExisting : Effect StorageError File Unit := do
  let file ← get
  if file.isSome then pure ()
  else throw (.io .notFound)

/-- The next byte of a write at the end of the file. -/
def writeByte (b : Byte) : Effect StorageError File Unit := do
  let file ← get
  if (file.getD []).length < maxFileLen then
    durable .ioFailure (fun file => file.map (· ++ [b]))
  else throw (.io .fileTooLarge)

/-- `write_all` at the end of the file: any prefix of the bytes may become
    durable before the write is cut short. -/
def writeAll : List Byte → Effect StorageError File Unit
  | [] => pure ()
  | b :: bs => do
    writeByte b
    writeAll bs

/-- The first `n` bytes of a file, with zeros past its end. -/
def resize (n : Nat) (bytes : List Byte) : List Byte :=
  bytes.take n ++ List.replicate (n - bytes.length) 0

/-- `File::set_len` -/
def setLen (n : Nat) : Effect StorageError File Unit :=
  if n ≤ maxFileLen then durable .ioFailure (fun file => file.map (resize n))
  else throw (.io .invalidInput)

/-- `File::sync_all`.  Writes are durable in the order they are made; the
    call may still fail. -/
def syncAll : Effect StorageError File Unit := durable .ioFailure id

end File

/-! ## Records -/

/-- The bytes of a float in memory. -/
def F32.toBytes (x : F32) : List Byte := toLe 4 x.bits.val

theorem ofLe_four_lt (b₀ b₁ b₂ b₃ : Byte) : ofLe [b₀, b₁, b₂, b₃] < 4294967296 := by
  simp only [ofLe]
  omega

/-- The float of four bytes. -/
def F32.ofBytes (b₀ b₁ b₂ b₃ : Byte) : F32 :=
  ⟨ofLe [b₀, b₁, b₂, b₃], ofLe_four_lt b₀ b₁ b₂ b₃⟩

/-- `bytemuck::cast_slice::<f32, u8>` -/
def bytesOf (values : List F32) : List Byte := values.flatMap F32.toBytes

/-- `bytemuck::cast_slice::<u8, f32>` -/
def floatsOf : List Byte → List F32
  | b₀ :: b₁ :: b₂ :: b₃ :: rest => F32.ofBytes b₀ b₁ b₂ b₃ :: floatsOf rest
  | _ => []

@[simp] theorem length_bytesOf (values : List F32) :
    (bytesOf values).length = values.length * 4 :=
  length_flatMap_of_width (fun _ _ => length_toLe 4 _)

theorem bytesOf_append (as bs : List F32) : bytesOf (as ++ bs) = bytesOf as ++ bytesOf bs :=
  List.flatMap_append

theorem bytesOf_flatten (rs : List (List F32)) : bytesOf rs.flatten = rs.flatMap bytesOf := by
  induction rs with
  | nil => rfl
  | cons r rs ih => rw [List.flatten_cons, bytesOf_append, ih, List.flatMap_cons]

@[simp] theorem floatsOf_bytesOf (values : List F32) : floatsOf (bytesOf values) = values := by
  induction values with
  | nil => rfl
  | cons v values ih =>
    have hv : F32.ofBytes (lowByte v.bits.val) (lowByte (v.bits.val / 256))
        (lowByte (v.bits.val / 256 / 256)) (lowByte (v.bits.val / 256 / 256 / 256)) = v := by
      have h := ofLe_toLe (w := 4) v.bits.isLt
      exact congrArg F32.mk (Fin.ext h)
    rw [bytesOf, List.flatMap_cons, ← bytesOf]
    simp only [F32.toBytes, toLe, List.cons_append, List.nil_append, floatsOf]
    rw [ih, hv]

theorem F32.toBytes_ofBytes (b₀ b₁ b₂ b₃ : Byte) :
    (F32.ofBytes b₀ b₁ b₂ b₃).toBytes = [b₀, b₁, b₂, b₃] := toLe_ofLe [b₀, b₁, b₂, b₃]

/-- Bytes of whole floats are read as those floats. -/
theorem bytesOf_floatsOf {n : Nat} {bytes : List Byte} (hlen : bytes.length = n * 4) :
    bytesOf (floatsOf bytes) = bytes := by
  induction n generalizing bytes with
  | zero =>
    obtain rfl := List.eq_nil_of_length_eq_zero (by omega)
    rfl
  | succ n ih =>
    rcases bytes with _ | ⟨b₀, _ | ⟨b₁, _ | ⟨b₂, _ | ⟨b₃, rest⟩⟩⟩⟩
    · simp at hlen
    · simp at hlen
      omega
    · simp at hlen
      omega
    · simp at hlen
      omega
    · have hrest : rest.length = n * 4 := by
        simp at hlen
        omega
      rw [floatsOf, bytesOf, List.flatMap_cons, ← bytesOf, F32.toBytes_ofBytes, ih hrest]
      rfl

theorem length_floatsOf {n : Nat} {bytes : List Byte} (hlen : bytes.length = n * 4) :
    (floatsOf bytes).length = n := by
  have hbytes := length_bytesOf (floatsOf bytes)
  rw [bytesOf_floatsOf hlen] at hbytes
  omega

/-! ## The header -/

/-- `HEADER_LEN` -/
def headerLen : Nat := 32

/-- `MAGIC`: the bytes of `EIDOSSEG`. -/
def magic : List Byte := [69, 73, 68, 79, 83, 83, 69, 71]

/-- The header `write_header` assembles. -/
def headerBytes (metricByte : Byte) (dimension : U32) : List Byte :=
  magic ++ toLe 4 formatVersion.val ++ toLe 4 dimension.val ++
    (metricByte :: List.replicate 15 0)

/-- What `validate_header` asks of the first bytes of a file. -/
def checkHeader (header : List Byte) (metric : Metric) (dimension : Nat) :
    Except StorageError Unit :=
  if header.take 8 ≠ magic then .error (.corruption "bad segment magic")
  else do
    let version ← readU32 ((header.drop 8).take 4)
    if version ≠ formatVersion then
      .error (.formatMismatch s!"segment version {version.val} != {formatVersion.val}")
    else
      let dim ← readU32 ((header.drop 12).take 4)
      let expected ← tryU32 dimension
      if dim ≠ expected then
        .error (.formatMismatch s!"segment dimension {dim.val} != {expected.val}")
      else
        let stored ← metricFromU8 (header.getD 16 0)
        if stored ≠ metric then .error (.formatMismatch "segment metric mismatch")
        else .ok ()

@[simp] theorem length_headerBytes (metricByte : Byte) (dimension : U32) :
    (headerBytes metricByte dimension).length = headerLen := by
  simp [headerBytes, magic, headerLen]

/-- The header of a store is accepted with the parameters it was written
    with. -/
theorem checkHeader_headerBytes (metric : Metric) (dimension : U32) :
    checkHeader (headerBytes (metricToU8 metric) dimension) metric dimension.val = .ok () := by
  have hmagic : (headerBytes (metricToU8 metric) dimension).take 8 = magic := by
    simp [headerBytes, magic]
  have hversion : ((headerBytes (metricToU8 metric) dimension).drop 8).take 4 =
      toLe 4 formatVersion.val := by
    simp [headerBytes, magic]
  have hdim : ((headerBytes (metricToU8 metric) dimension).drop 12).take 4 =
      toLe 4 dimension.val := by
    simp [headerBytes, magic]
  have hmetric : (headerBytes (metricToU8 metric) dimension).getD 16 0 = metricToU8 metric := by
    simp [headerBytes, magic]
  unfold checkHeader
  rw [hmagic, hversion, hdim, hmetric, readU32_toLe, readU32_toLe, metricFromU8_metricToU8,
    tryU32_of_lt dimension.isLt]
  simp [Bind.bind, Except.bind]

/-! ## The segment -/

/-- `Segment`: its file is held apart; `mmap` is the length of the memory
    map, which shows the first bytes of the file. -/
structure Segment where
  dimension : Nat
  mmap : Option Nat
  mappedRecords : Nat
  deriving DecidableEq

namespace Segment

/-- A segment before its first `remap`. -/
def unmapped (dimension : Nat) : Segment :=
  { dimension := dimension, mmap := none, mappedRecords := 0 }

/-- `Segment::stride` -/
def stride (self : Segment) : Nat := self.dimension * 4

/-- A file operation of the segment. -/
def onFile {α : Type} (m : Effect StorageError File α) : Effect StorageError (File × Segment) α :=
  zoom Prod.fst (fun file s => (file, s.2)) m

/-- An assignment to the fields of the segment. -/
def assign (f : Segment → Segment) : Effect StorageError (File × Segment) Unit :=
  modify (fun s => (s.1, f s.2))

/-- `Segment::remap` -/
def remap (recordCount : Nat) : Effect StorageError (File × Segment) Unit := do
  -- the old map is dropped first, whatever comes of the new one
  assign (fun self => { self with mmap := none })
  let s ← get
  let needed := (wrap64 (headerLen + recordCount * s.2.stride)).val
  let actual := (s.1.getD []).length
  -- a file that is longer is mapped as it is
  if actual < needed then
    throw (.corruption s!"segment file len {actual} < required {needed}")
  else
    onFile (durable .ioFailure id)
    assign (fun self => { self with mmap := some actual, mappedRecords := recordCount })

/-- `Segment::create` -/
def create (metric : Metric) (dimension : Nat) : Effect StorageError File Segment := do
  File.createNew
  let dim ← liftExcept (tryU32 dimension)
  File.writeAll (headerBytes (metricToU8 metric) dim)
  File.syncAll
  withVar (unmapped dimension) (remap 0)

/-- `validate_header` -/
def validateHeader (metric : Metric) (dimension : Nat) : Effect StorageError File Unit := do
  let file ← get
  if (file.getD []).length < headerLen then throw (.io .unexpectedEof)
  else liftExcept (checkHeader ((file.getD []).take headerLen) metric dimension)

/-- `Segment::open` -/
def openAt (metric : Metric) (dimension recordCount : Nat) : Effect StorageError File Segment := do
  File.openExisting
  validateHeader metric dimension
  -- bytes behind the watermark are cut off, missing ones become zeros
  let validLen := (wrap64 (headerLen + recordCount * (unmapped dimension).stride)).val
  File.setLen validLen
  File.syncAll
  withVar (unmapped dimension) (remap recordCount)

/-- `Segment::append` -/
def append (values : List F32) : Effect StorageError (File × Segment) Unit := do
  let s ← get
  -- the remainder by zero
  if s.2.dimension = 0 then panic
  else if values.length % s.2.dimension ≠ 0 then
    throw (.corruption
      s!"append length {values.length} is not a multiple of dimension {s.2.dimension}")
  else
    onFile (File.writeAll (bytesOf values))
    onFile File.syncAll

/-- `Segment::truncate_to_empty` -/
def truncateToEmpty : Effect StorageError (File × Segment) Unit := do
  assign (fun self => { self with mmap := none, mappedRecords := 0 })
  onFile (File.setLen headerLen)
  onFile File.syncAll

/-- `Segment::record` -/
def record (file : File) (self : Segment) (slot : Nat) : Option (List F32) :=
  if self.mappedRecords ≤ slot then none
  else match self.mmap with
    | none => none
    | some len =>
      -- a slice whose end is not in the map is none, also when it wraps around
      let start := (wrap64 (headerLen + (wrap64 (slot * self.stride)).val)).val
      let stop := (wrap64 (start + self.stride)).val
      if start ≤ stop ∧ stop ≤ len then
        some (floatsOf (((file.getD []).drop start).take (stop - start)))
      else none

end Segment

end EidosDB
