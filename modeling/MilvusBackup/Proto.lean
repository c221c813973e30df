import MilvusBackup.GoStrings

/-!
# The backup records

The records of `backuppb` that the create-backup path reads and writes, with the fields it
touches. A Go struct literal leaves every field it does not name at its zero value; here that is
each field's default, so `{ segmentId := s, … }` is the same literal.

The tree they form is

* `MilvusBackup.BackupInfo` – a backup task, owning
* `MilvusBackup.CollectionBackupInfo` – a collection snapshot, owning
* `MilvusBackup.PartitionBackupInfo` – a partition, owning
* `MilvusBackup.SegmentBackupInfo` – a segment and its `MilvusBackup.FieldBinlog` lists.

The MetaManager keeps them in flat tables and joins them on demand
(`MilvusBackup.MetaManager.getFullMeta`), so the child lists and the sizes stored in a record are
not what a reader of the tree sees. Ids are Go's `int64`, as `Int`; timestamps of Milvus are `uint64`, as
`Nat`. Fields no modelled function reads or writes (descriptions of requests, the statistics
logs, the restore records) are left out.
-/

namespace MilvusBackup

/-- A Go `error`: its message. A function returning `error` returns `Option GoError`, `none`
being `nil`. -/
abbrev GoError := String

/-- `backuppb.BackupTaskStateCode`. -/
inductive BackupTaskStateCode
  | backupInitial
  | backupExecuting
  | backupSuccess
  | backupFail
  | backupTimeout
  deriving DecidableEq, Repr, Inhabited

/-- `backuppb.ResponseCode`. -/
inductive ResponseCode
  | success
  | fail
  | parameterError
  | requestObjectNotFound
  deriving DecidableEq, Repr, Inhabited

/-- `backuppb.Binlog`: one object of a segment's binlog tree, and its size. -/
structure Binlog where
  logPath : String := ""
  logSize : Int := 0
  deriving DecidableEq, Repr

/-- `backuppb.FieldBinlog`: the binlogs of one field of a segment. -/
structure FieldBinlog where
  fieldID : Int := 0
  binlogs : List Binlog := []
  deriving DecidableEq, Repr

/-- `backuppb.SegmentBackupInfo`. -/
structure SegmentBackupInfo where
  segmentId : Int := 0
  collectionId : Int := 0
  partitionId : Int := 0
  numOfRows : Int := 0
  groupId : Int := 0
  binlogs : List FieldBinlog := []
  deltalogs : List FieldBinlog := []
  size : Int := 0
  backuped : Bool := false
  deriving DecidableEq, Repr

/-- `backuppb.PartitionBackupInfo`. -/
structure PartitionBackupInfo where
  partitionId : Int := 0
  partitionName : String := ""
  collectionId : Int := 0
  segmentBackups : List SegmentBackupInfo := []
  size : Int := 0
  loadState : String := ""
  deriving DecidableEq, Repr

/-- `backuppb.FieldSchema`. -/
structure FieldSchema where
  fieldID : Int := 0
  name : String := ""
  isPrimaryKey : Bool := false
  description : String := ""
  autoID : Bool := false
  dataType : Int := 0
  typeParams : List (String × String) := []
  indexParams : List (String × String) := []
  isDynamic : Bool := false
  isPartitionKey : Bool := false
  elementType : Int := 0
  deriving DecidableEq, Repr

/-- `backuppb.CollectionSchema`. -/
structure CollectionSchema where
  name : String := ""
  description : String := ""
  autoID : Bool := false
  fields : List FieldSchema := []
  enableDynamicField : Bool := false
  deriving DecidableEq, Repr

/-- `backuppb.IndexInfo`. -/
structure IndexInfo where
  fieldName : String := ""
  indexName : String := ""
  indexType : String := ""
  params : List (String × String) := []
  deriving DecidableEq, Repr

/-- `backuppb.CollectionBackupInfo`; `id` is the id of the backup it belongs to, and
`channelCheckpoints` maps a virtual channel to its encoded position, in iteration order. -/
structure CollectionBackupInfo where
  id : String := ""
  stateCode : BackupTaskStateCode := .backupInitial
  startTime : Int := 0
  endTime : Int := 0
  collectionId : Int := 0
  dbName : String := ""
  collectionName : String := ""
  schema : CollectionSchema := {}
  shardsNum : Int := 0
  consistencyLevel : Int := 0
  hasIndex : Bool := false
  indexInfos : List IndexInfo := []
  loadState : String := ""
  channelCheckpoints : List (String × String) := []
  backupTimestamp : Nat := 0
  backupPhysicalTimestamp : Nat := 0
  size : Int := 0
  partitionBackups : List PartitionBackupInfo := []
  deriving DecidableEq, Repr

/-- `backuppb.BackupInfo`. -/
structure BackupInfo where
  id : String := ""
  stateCode : BackupTaskStateCode := .backupInitial
  errorMessage : String := ""
  startTime : Int := 0
  endTime : Int := 0
  name : String := ""
  milvusVersion : String := ""
  size : Int := 0
  collectionBackups : List CollectionBackupInfo := []
  deriving DecidableEq, Repr

/-- `backuppb.ChannelPosition`: a physical channel and the position recorded for it. -/
structure ChannelPosition where
  name : String := ""
  position : String := ""
  deriving DecidableEq, Repr

/-! ### Go's `int64`

Sizes are `int64` in `backuppb` and in the loops that add them up, and Go's `int64` arithmetic
wraps: a sum is the exact sum reduced modulo `2^64` into `[-2^63, 2^63)`. A running sum
`size += x` is therefore the wrap of the exact sum, and the exact sum itself when that fits. -/

namespace Go

/-- The `int64` an integer wraps to. -/
def toInt64 (x : Int) : Int := x.bmod (2 ^ 64)

/-- Go's `a + b` on `int64`. -/
def addInt64 (a b : Int) : Int := toInt64 (a + b)

theorem toInt64_of_range {x : Int} (h₁ : -2 ^ 63 ≤ x) (h₂ : x < 2 ^ 63) : toInt64 x = x := by
  rw [toInt64, Int.bmod_def]
  split <;> omega

theorem toInt64_add_toInt64 (a x : Int) : toInt64 (toInt64 a + x) = toInt64 (a + x) :=
  Int.bmod_add_bmod_congr

/-- Only the residue of a running `int64` sum matters: adding up `l` from the wrap of `a` gives
the wrap of the exact sum. -/
theorem foldl_addInt64 (a : Int) (l : List Int) :
    l.foldl addInt64 (toInt64 a) = toInt64 (a + l.sum) := by
  induction l generalizing a with
  | nil => simp
  | cons x l ih => rw [List.foldl_cons, addInt64, toInt64_add_toInt64, ih, List.sum_cons, add_assoc]

theorem foldl_addInt64_zero (l : List Int) : l.foldl addInt64 0 = toInt64 l.sum := by
  simpa using foldl_addInt64 0 l

/-- A Go loop `size += x` over `l`, from `0`. -/
def sumInt64 (l : List Int) : Int := l.foldl addInt64 0

theorem sumInt64_eq (l : List Int) : sumInt64 l = toInt64 l.sum := foldl_addInt64_zero l

/-- Two objects of `2^62` bytes add up to `-2^63`. -/
example : addInt64 (2 ^ 62) (2 ^ 62) = -2 ^ 63 := by decide

end Go

/-! ### Sizes -/

/-- The total size of a list of field binlogs. -/
def FieldBinlog.totalSize (l : List FieldBinlog) : Int :=
  (l.map fun fb => (fb.binlogs.map Binlog.logSize).sum).sum

/-- The segments of a backup tree, collection by collection and partition by partition. -/
def BackupInfo.allSegments (b : BackupInfo) : List SegmentBackupInfo :=
  b.collectionBackups.flatMap fun c => c.partitionBackups.flatMap PartitionBackupInfo.segmentBackups

/-- Modelled from the spec: the constants `LoadState_NotLoad`, `LoadState_Loading` and
`LoadState_Loaded` are declared outside the source; the spec names the load states `NotLoad`,
`Loading` and `Loaded`. -/
def loadStateNotLoad : String := "NotLoad"

@[inherit_doc loadStateNotLoad]
def loadStateLoading : String := "Loading"

@[inherit_doc loadStateNotLoad]
def loadStateLoaded : String := "Loaded"

end MilvusBackup
