import MilvusBackup.Meta

/-!
# A backup context and the systems around it

A `BackupContext` talks to two external systems, Milvus and an object store, through the calls
of §4.A and §4.B, and keeps its state in a MetaManager and two worker pools. A run of its code
is a `MilvusBackup.BackupM` computation:

* it reads a `MilvusBackup.Setting`: the context's configuration, the **behaviour** of the two
  systems (`MilvusBackup.Env`), and the tick from which the caller's context is cancelled;
* it threads a `MilvusBackup.World`: the MetaManager, the pools, a clock counting the external
  calls made so far, and the log of what the object store accepted.

A behaviour answers every call as a function of the tick and of whether the context the call
carries is cancelled. Since a run is deterministic given the answers, quantifying over all
behaviours quantifies over every history of answers: any call may fail, at any point, and a
listing may return anything.

The worker pools are modelled from the spec (§4.C): a submitted job is pending until it is
waited for; `WaitJobs` runs the pending jobs among its ids to completion, one at a time in the
order of its ids, and returns the first error among their results. This is one of the schedules
the pool allows – a dispatcher slow enough that nothing runs before it is waited for – and jobs
run atomically in it. `retry.Do` is modelled from the spec (§9) as a bounded loop that gives up
when its context is cancelled between two attempts.
-/

namespace MilvusBackup

/-! ### What Milvus answers -/

/-- `entity.Field`. -/
structure EntityField where
  id : Int := 0
  name : String := ""
  primaryKey : Bool := false
  description : String := ""
  autoID : Bool := false
  dataType : Int := 0
  typeParams : List (String × String) := []
  indexParams : List (String × String) := []
  isDynamic : Bool := false
  isPartitionKey : Bool := false
  elementType : Int := 0
  deriving DecidableEq, Repr

/-- `entity.Schema`. -/
structure EntitySchema where
  collectionName : String := ""
  description : String := ""
  autoID : Bool := false
  fields : List EntityField := []
  enableDynamicField : Bool := false
  deriving DecidableEq, Repr

/-- `entity.Collection`, as `DescribeCollection` returns it. -/
structure EntityCollection where
  id : Int := 0
  name : String := ""
  schema : EntitySchema := {}
  shardNum : Int := 0
  consistencyLevel : Int := 0
  deriving DecidableEq, Repr

/-- `entity.Index`: its `Name()`, `IndexType()` and `Params()`. -/
structure EntityIndex where
  name : String := ""
  indexType : String := ""
  params : List (String × String) := []
  deriving DecidableEq, Repr

/-- `entity.Partition`. -/
structure EntityPartition where
  id : Int := 0
  name : String := ""
  deriving DecidableEq, Repr

/-- `entity.Segment`, as `GetPersistentSegmentInfo` returns it (the SDK spells the partition
field `ParititionID`). -/
structure EntitySegment where
  id : Int := 0
  collectionID : Int := 0
  parititionID : Int := 0
  numRows : Int := 0
  deriving DecidableEq, Repr

/-- A `msgpb.MsgPosition` as the code reads it: its timestamp, and its encoding by
`utils.Base64MsgPosition`. -/
structure MsgPosition where
  timestamp : Nat := 0
  base64 : String := ""
  deriving DecidableEq, Repr

/-- A Go map, in one of its iteration orders: its keys are distinct. -/
structure GoMap (κ ν : Type) where
  entries : List (κ × ν)
  nodup : (entries.map Prod.fst).Nodup

/-- What `FlushV2` returns: the newly sealed and the already flushed segment ids, the seal time
and the channel checkpoints. -/
structure FlushResult where
  newSealedSegmentIDs : List Int := []
  flushedSegmentIDs : List Int := []
  timeOfSeal : Int := 0
  channelCPs : GoMap String MsgPosition := ⟨[], List.nodup_nil⟩

/-! ### Behaviours, settings and worlds -/

/-- What a manifest object holds: one of the five serializations of a full meta, or the
channel-checkpoint map. -/
inductive Blob
  | backupMeta (b : BackupInfo)
  | collectionMeta (b : BackupInfo)
  | partitionMeta (b : BackupInfo)
  | segmentMeta (b : BackupInfo)
  | fullMeta (b : BackupInfo)
  | channelCPMeta (cps : List (String × List ChannelPosition))
  deriving DecidableEq

/-- **A behaviour of Milvus and of the object store**: the answer to each call, as a function of
the tick it is made at and of whether the context it carries is cancelled. A call answering
`(v, some e)` failed with `e`; Go hands back `v` all the same. -/
structure Env where
  exist : Nat → Bool → String → String → Bool × Option GoError
  write : Nat → Bool → String → String → Option GoError
  read : Nat → Bool → String → String → Blob × Option GoError
  copy : Nat → Bool → String → String → String → String → Option GoError
  removeWithPrefix : Nat → Bool → String → String → Option GoError
  listWithPrefix : Nat → Bool → String → String → List (String × Int) × Option GoError
  getVersion : Nat → Bool → String × Option GoError
  listDatabases : Nat → Bool → List String × Option GoError
  listCollections : Nat → Bool → String → List String × Option GoError
  hasCollection : Nat → Bool → String → String → Bool × Option GoError
  describeCollection : Nat → Bool → String → String → EntityCollection × Option GoError
  describeIndex : Nat → Bool → String → String → String → List EntityIndex × Option GoError
  showPartitions : Nat → Bool → String → String → List EntityPartition × Option GoError
  getLoadingProgress : Nat → Bool → String → String → List String → Int × Option GoError
  getPersistentSegmentInfo : Nat → Bool → String → String → List EntitySegment × Option GoError
  flushV2 : Nat → Bool → String → String → FlushResult × Option GoError
  /-- `time.Now()` at a tick, in the unit each caller converts it to. -/
  now : Nat → Int
  /-- `time.Now().UTC().Format("2006_01_02_15_04_05_")` at a tick. -/
  utcFormat : Nat → String
  /-- `time.Now().Nanosecond()` at a tick. -/
  nanosecond : Nat → Int
  /-- `utils.UUID()` at a tick. -/
  uuid : Nat → String
  /-- `jsoniter.UnmarshalFromString` of a `dbCollections` string into a map from databases to
  collection names, listed in one of the map's iteration orders. -/
  unmarshalDbCollections : String → Except GoError (List (String × List String))
  /-- `deserialize` of the four manifest objects `readBackup` reads, which is not in the source:
  any function of them. -/
  deserialize : Blob → Blob → Blob → Blob → Except GoError BackupInfo

/-- The behaviour in which every call succeeds, every listing is empty, every collection exists
and has no partition, and the clock reads the tick. -/
def Env.nominal : Env where
  exist _ _ _ _ := (true, none)
  write _ _ _ _ := none
  read _ _ _ _ := (.backupMeta {}, none)
  copy _ _ _ _ _ _ := none
  removeWithPrefix _ _ _ _ := none
  listWithPrefix _ _ _ _ := ([], none)
  getVersion _ _ := ("", none)
  listDatabases _ _ := ([], none)
  listCollections _ _ _ := ([], none)
  hasCollection _ _ _ _ := (true, none)
  describeCollection _ _ _ _ := ({}, none)
  describeIndex _ _ _ _ _ := ([], none)
  showPartitions _ _ _ _ := ([], none)
  getLoadingProgress _ _ _ _ _ := (0, none)
  getPersistentSegmentInfo _ _ _ _ := ([], none)
  flushV2 _ _ _ _ := ({}, none)
  now t := t
  utcFormat _ := "2024_01_01_00_00_00_"
  nanosecond _ := 0
  uuid t := "task" ++ toString t
  unmarshalDbCollections _ := .ok []
  deserialize _ _ _ _ := .ok {}

/-- The fields of a `BackupContext` the create path reads: `milvusBucketName`,
`backupBucketName`, `milvusRootPath` (which is `params.MinioCfg.RootPath`) and
`backupRootPath`. -/
structure Config where
  milvusBucketName : String
  backupBucketName : String
  milvusRootPath : String
  backupRootPath : String

/-- The context a call carries: the backup context's own `b.ctx`, from which the pools' contexts
derive and which is never cancelled, or the caller's request context. -/
inductive Ctx
  | engine
  | request
  deriving DecidableEq, Repr

/-- What a run reads and never changes. -/
structure Setting where
  cfg : Config
  env : Env
  /-- The tick from which the caller's context is cancelled, if it ever is. -/
  cancelAt : Option Nat

/-- Whether `ctx` is cancelled at tick `t`. -/
def Setting.cancelled (s : Setting) (ctx : Ctx) (t : Nat) : Bool :=
  match ctx with
  | .engine => false
  | .request => s.cancelAt.any (· ≤ t)

/-- A call carrying the engine's own context is never cancelled. -/
@[simp] theorem Setting.cancelled_engine (s : Setting) (t : Nat) : s.cancelled .engine t = false :=
  rfl

/-- `collectionStruct`: a collection to back up. -/
structure CollectionStruct where
  db : String
  collectionName : String
  deriving DecidableEq, Repr

/-- A job of the collection pool: a collection's prepare (with the backup and the request's
`force`), or its execute. -/
inductive CollectionJob
  | prepare (backupInfo : BackupInfo) (collection : CollectionStruct) (force : Bool)
  | execute (collectionBackup : CollectionBackupInfo)

/-- The backup a job of the collection pool works for. -/
def CollectionJob.backupId : CollectionJob → String
  | .prepare backupInfo _ _ => backupInfo.id
  | .execute collectionBackup => collectionBackup.id

/-- Modelled from the spec: `common.WorkerPool` (§4.C) is not in the source. Its pending jobs
with their ids, the results of the finished ones, and the next id `SubmitWithId` hands out. -/
structure Pool (J : Type) where
  nextId : Nat := 0
  pending : List (Nat × J) := []
  finished : List (Nat × Option GoError) := []

/-- What the log records, in order: each object the object store accepted, and each option set
applied to a backup record. -/
inductive Event
  | written (bucket path : String) (blob : Blob)
  | copied (srcBucket dstBucket srcPath dstPath : String)
  | removed (bucket pre : String)
  | backupUpdated (id : String) (opts : List BackupOpt)
  deriving DecidableEq

/-- Whether an event is an accepted write. -/
def Event.isWritten : Event → Bool
  | .written .. => true
  | _ => false

/-- The path of an accepted write. -/
def Event.writtenPath : Event → Option String
  | .written _ path _ => some path
  | _ => none

/-- The state a run threads. -/
structure World where
  meta : MetaManager
  clock : Nat := 0
  log : List Event := []
  collectionPool : Pool CollectionJob := {}
  copyPool : Pool Int := {}

/-! The updates of a world and of a pool take their argument apart, so that evaluating a run
never copies the world it starts from. -/

/-- The world after an external call: the clock advanced. -/
def World.tick : World → World
  | ⟨m, c, l, cp, dp⟩ => ⟨m, c + 1, l, cp, dp⟩

/-- The world with its MetaManager written. -/
def World.setMeta (f : MetaManager → MetaManager) : World → World
  | ⟨m, c, l, cp, dp⟩ => ⟨f m, c, l, cp, dp⟩

/-- The world with an event appended to its log. -/
def World.appendLog (e : Event) : World → World
  | ⟨m, c, l, cp, dp⟩ => ⟨m, c, l ++ [e], cp, dp⟩

section WorldUpdates

variable (w : World) {f : MetaManager → MetaManager} {e : Event}

@[simp] theorem World.tick_meta : w.tick.meta = w.meta := rfl
@[simp] theorem World.tick_clock : w.tick.clock = w.clock + 1 := rfl
@[simp] theorem World.tick_log : w.tick.log = w.log := rfl
@[simp] theorem World.tick_collectionPool : w.tick.collectionPool = w.collectionPool := rfl
@[simp] theorem World.tick_copyPool : w.tick.copyPool = w.copyPool := rfl
@[simp] theorem World.setMeta_meta : (w.setMeta f).meta = f w.meta := rfl
@[simp] theorem World.setMeta_clock : (w.setMeta f).clock = w.clock := rfl
@[simp] theorem World.setMeta_log : (w.setMeta f).log = w.log := rfl
@[simp] theorem World.setMeta_collectionPool :
    (w.setMeta f).collectionPool = w.collectionPool := rfl
@[simp] theorem World.setMeta_copyPool : (w.setMeta f).copyPool = w.copyPool := rfl
@[simp] theorem World.appendLog_meta : (w.appendLog e).meta = w.meta := rfl
@[simp] theorem World.appendLog_clock : (w.appendLog e).clock = w.clock := rfl
@[simp] theorem World.appendLog_log : (w.appendLog e).log = w.log ++ [e] := rfl
@[simp] theorem World.appendLog_collectionPool :
    (w.appendLog e).collectionPool = w.collectionPool := rfl
@[simp] theorem World.appendLog_copyPool : (w.appendLog e).copyPool = w.copyPool := rfl

end WorldUpdates

/-- A computation of the backup context. -/
def BackupM (α : Type) : Type := Setting → World → α × World

instance : Monad BackupM where
  pure a := fun _ w => (a, w)
  bind x f := fun s w => match x s w with
    | (a, w') => f a s w'

namespace BackupM

variable {α β : Type}

@[simp] theorem pure_apply (a : α) (s : Setting) (w : World) :
    (pure a : BackupM α) s w = (a, w) := rfl

@[simp] theorem bind_apply (x : BackupM α) (f : α → BackupM β) (s : Setting) (w : World) :
    (x >>= f) s w = f (x s w).1 s (x s w).2 := rfl

@[simp] theorem pure_bind (a : α) (f : α → BackupM β) : (pure a >>= f) = f a := rfl

/-- The setting. -/
def setting : BackupM Setting := fun s w => (s, w)

/-- The MetaManager as it stands. -/
def meta : BackupM MetaManager := fun _ w => match w with
  | ⟨m, c, l, cp, dp⟩ => (m, ⟨m, c, l, cp, dp⟩)

/-- The clock as it stands. -/
def clockNow : BackupM Nat := fun _ w => match w with
  | ⟨m, c, l, cp, dp⟩ => (c, ⟨m, c, l, cp, dp⟩)

/-- A write to the MetaManager. -/
def modifyMeta (f : MetaManager → MetaManager) : BackupM Unit :=
  fun _ w => ((), w.setMeta f)

/-- An event appended to the log. -/
def logEvent (e : Event) : BackupM Unit := fun _ w => ((), w.appendLog e)

/-- An external call carrying `ctx`: its answer is read off the behaviour at the current tick,
and the tick advances. -/
def call (ctx : Ctx) (answer : Env → Nat → Bool → α) : BackupM α := fun s w => match w with
  | ⟨m, c, l, cp, dp⟩ => (answer s.env c (s.cancelled ctx c), ⟨m, c + 1, l, cp, dp⟩)

@[simp] theorem setting_apply (s : Setting) (w : World) : setting s w = (s, w) := rfl
@[simp] theorem meta_apply (s : Setting) (w : World) : meta s w = (w.meta, w) := rfl
@[simp] theorem clockNow_apply (s : Setting) (w : World) : clockNow s w = (w.clock, w) := rfl
@[simp] theorem modifyMeta_apply (f : MetaManager → MetaManager) (s : Setting) (w : World) :
    modifyMeta f s w = ((), w.setMeta f) := rfl
@[simp] theorem logEvent_apply (e : Event) (s : Setting) (w : World) :
    logEvent e s w = ((), w.appendLog e) := rfl
@[simp] theorem call_apply (ctx : Ctx) (answer : Env → Nat → Bool → α) (s : Setting)
    (w : World) : call ctx answer s w =
      (answer s.env w.clock (s.cancelled ctx w.clock), w.tick) := rfl

@[simp] theorem discard_apply (x : BackupM α) (s : Setting) (w : World) :
    Functor.discard x s w = ((), (x s w).2) := rfl

end BackupM

open BackupM

/-! ### The object store -/

/-- `Exist(ctx, bucket, path)`. -/
def exist (ctx : Ctx) (bucket path : String) : BackupM (Bool × Option GoError) :=
  call ctx fun e t c => e.exist t c bucket path

/-- `ListWithPrefix(ctx, bucket, prefix, false)`: the immediate children of `prefix` with their
sizes, aligned by construction. -/
def listWithPrefix (ctx : Ctx) (bucket pre : String) : BackupM (List (String × Int) × Option GoError) :=
  call ctx fun e t c => e.listWithPrefix t c bucket pre

/-- `Write(ctx, bucket, path, bytes)`; an accepted write is logged. -/
def write (ctx : Ctx) (bucket path : String) (blob : Blob) : BackupM (Option GoError) := do
  let r ← call ctx fun e t c => e.write t c bucket path
  if r.isNone then logEvent (.written bucket path blob)
  pure r

/-- `Read(ctx, bucket, path)`. -/
def read (ctx : Ctx) (bucket path : String) : BackupM (Blob × Option GoError) :=
  call ctx fun e t c => e.read t c bucket path

/-- `RemoveWithPrefix(ctx, bucket, prefix)`; an accepted removal is logged. -/
def removeWithPrefix (ctx : Ctx) (bucket pre : String) : BackupM (Option GoError) := do
  let r ← call ctx fun e t c => e.removeWithPrefix t c bucket pre
  if r.isNone then logEvent (.removed bucket pre)
  pure r

/-- `Copy(ctx, srcBucket, dstBucket, srcPath, dstPath)`; an accepted copy is logged. -/
def copy (ctx : Ctx) (srcBucket dstBucket src dst : String) : BackupM (Option GoError) := do
  let r ← call ctx fun e t c => e.copy t c srcBucket dstBucket src dst
  if r.isNone then logEvent (.copied srcBucket dstBucket src dst)
  pure r

/-! ### Milvus, and the clock -/

/-- `GetVersion(ctx)`. -/
def getVersion (ctx : Ctx) : BackupM (String × Option GoError) :=
  call ctx fun e t c => e.getVersion t c

/-- `ListDatabases(ctx)`: the names of the databases. -/
def listDatabases (ctx : Ctx) : BackupM (List String × Option GoError) :=
  call ctx fun e t c => e.listDatabases t c

/-- `ListCollections(ctx, db)`: the names of the collections of `db`. -/
def listCollections (ctx : Ctx) (db : String) : BackupM (List String × Option GoError) :=
  call ctx fun e t c => e.listCollections t c db

/-- `HasCollection(ctx, db, collectionName)`. -/
def hasCollection (ctx : Ctx) (db collectionName : String) : BackupM (Bool × Option GoError) :=
  call ctx fun e t c => e.hasCollection t c db collectionName

/-- `DescribeCollection(ctx, db, collectionName)`. -/
def describeCollection (ctx : Ctx) (db collectionName : String) :
    BackupM (EntityCollection × Option GoError) :=
  call ctx fun e t c => e.describeCollection t c db collectionName

/-- `DescribeIndex(ctx, db, collectionName, fieldName)`. -/
def describeIndex (ctx : Ctx) (db collectionName fieldName : String) :
    BackupM (List EntityIndex × Option GoError) :=
  call ctx fun e t c => e.describeIndex t c db collectionName fieldName

/-- `ShowPartitions(ctx, db, collectionName)`. -/
def showPartitions (ctx : Ctx) (db collectionName : String) :
    BackupM (List EntityPartition × Option GoError) :=
  call ctx fun e t c => e.showPartitions t c db collectionName

/-- `GetLoadingProgress(ctx, db, collectionName, partitionNames)`. -/
def getLoadingProgress (ctx : Ctx) (db collectionName : String) (partitionNames : List String) :
    BackupM (Int × Option GoError) :=
  call ctx fun e t c => e.getLoadingProgress t c db collectionName partitionNames

/-- `GetPersistentSegmentInfo(ctx, db, collectionName)`. -/
def getPersistentSegmentInfo (ctx : Ctx) (db collectionName : String) :
    BackupM (List EntitySegment × Option GoError) :=
  call ctx fun e t c => e.getPersistentSegmentInfo t c db collectionName

/-- `FlushV2(ctx, db, collectionName, false)`. -/
def flushV2 (ctx : Ctx) (db collectionName : String) : BackupM (FlushResult × Option GoError) :=
  call ctx fun e t c => e.flushV2 t c db collectionName

/-- `time.Now()`, read in the unit the caller converts it to. -/
def timeNow : BackupM Int := call .engine fun e t _ => e.now t

/-! ### The MetaManager, through the context -/

/-- `b.meta.UpdateBackup(id, opts...)`, logged. -/
def updateBackup (id : String) (opts : List BackupOpt) : BackupM Unit := do
  modifyMeta (·.updateBackup id opts)
  logEvent (.backupUpdated id opts)

/-! ### Retrying -/

/-- The message a call on a cancelled context fails with, `context.Canceled`. -/
def contextCanceled : GoError := "context canceled"

/-- Modelled from the spec: `retry.Do(ctx, fn, retry.Attempts(n), retry.Sleep(d))` is not in the
source (§9: a higher-order wrapper taking attempts and sleep; cancellation aborts during sleep).
`fn` is run until it returns `nil`, at most `n` times; between two attempts it sleeps, and gives
up with the cancellation if `ctx` is cancelled by then. -/
def retryDo (ctx : Ctx) (fn : BackupM (Option GoError)) : Nat → BackupM (Option GoError)
  | 0 => pure none
  | n + 1 => do
    match ← fn with
    | none => pure none
    | some err =>
      if n = 0 then pure (some err)
      else
        let s ← setting
        let clock ← clockNow
        if s.cancelled ctx clock then pure (some contextCanceled)
        else retryDo ctx fn n

/-! ### Worker pools -/

/-- Which pool of the world a job goes to: the pool, and the world with the pool replaced. -/
structure PoolRef (J : Type) where
  focus : World → Pool J × (Pool J → World)

/-- `b.getBackupCollectionWorkerPool()`. -/
def collectionPoolRef : PoolRef CollectionJob :=
  ⟨fun | ⟨m, c, l, cp, dp⟩ => (cp, fun cp => ⟨m, c, l, cp, dp⟩)⟩

/-- `b.getCopyDataWorkerPool()`; a copy job is the id of the segment it copies. -/
def copyPoolRef : PoolRef Int :=
  ⟨fun | ⟨m, c, l, cp, dp⟩ => (dp, fun dp => ⟨m, c, l, cp, dp⟩)⟩

/-- The job pending under `id` and the pending jobs without it, in one pass. -/
def takePending {J : Type} (id : Nat) : List (Nat × J) → Option J × List (Nat × J)
  | [] => (none, [])
  | (i, job) :: rest =>
    match takePending id rest with
    | (found, rest) => if i = id then (some job, rest) else (found, (i, job) :: rest)

/-- `SubmitWithId(job)`: the job is pending under the next id, which is returned. -/
def submitWithId {J : Type} (p : PoolRef J) (job : J) : BackupM Nat := fun _ w =>
  match p.focus w with
  | (⟨n, pending, finished⟩, rebuild) => (n, rebuild ⟨n + 1, pending ++ [(n, job)], finished⟩)

/-- The job pending under `id`, if it is still pending, run to completion by `run` and its
result recorded. -/
def runPending {J : Type} (p : PoolRef J) (run : J → BackupM (Option GoError)) (id : Nat) :
    BackupM Unit := fun s w =>
  match p.focus w with
  | (⟨n, pending, finished⟩, rebuild) =>
    match takePending id pending with
    | (none, pending) => ((), rebuild ⟨n, pending, finished⟩)
    | (some job, pending) =>
      match run job s (rebuild ⟨n, pending, finished⟩) with
      | (r, w') =>
        match p.focus w' with
        | (⟨n, pending, finished⟩, rebuild) => ((), rebuild ⟨n, pending, finished ++ [(id, r)]⟩)

/-- The results of the jobs `ids`, in order: the first error among them. -/
def firstError (finished : List (Nat × Option GoError)) (ids : List Nat) : Option GoError :=
  (ids.filterMap fun id => (finished.lookup id).join).head?

/-- The pool as it stands. -/
def getPool {J : Type} (p : PoolRef J) : BackupM (Pool J) := fun _ w =>
  match p.focus w with
  | (pool, rebuild) => (pool, rebuild pool)

/-- `WaitJobs(ids)`: every job among `ids` still pending is run, in the order of `ids`, and the
first error among the results of `ids` is returned. -/
def waitJobs {J : Type} (p : PoolRef J) (run : J → BackupM (Option GoError)) (ids : List Nat) :
    BackupM (Option GoError) := do
  ids.forM (runPending p run)
  let pool ← getPool p
  pure (firstError pool.finished ids)

/-! ### What a run appends to the log -/

/-- `x`, run in the setting `s` from any world, only appends to the log, and only events
satisfying `P`. -/
def Appends {α : Type} (P : Event → Prop) (x : BackupM α) (s : Setting) : Prop :=
  ∀ w, ∃ l, (x s w).2.log = w.log ++ l ∧ ∀ e ∈ l, P e

namespace Appends

variable {α β : Type} {P Q : Event → Prop} {s : Setting}

theorem mono {x : BackupM α} (h : Appends P x s) (hPQ : ∀ e, P e → Q e) : Appends Q x s :=
  fun w => (h w).imp fun _ ⟨hl, he⟩ => ⟨hl, fun e h => hPQ e (he e h)⟩

/-- A computation that leaves the log as it is. -/
theorem of_log_eq {x : BackupM α} (h : ∀ w, (x s w).2.log = w.log) : Appends P x s :=
  fun w => ⟨[], by simp [h], by simp⟩

theorem pure (a : α) : Appends P (Pure.pure a : BackupM α) s := of_log_eq fun _ => rfl

theorem bind {x : BackupM α} {f : α → BackupM β} (hx : Appends P x s)
    (hf : ∀ a, Appends P (f a) s) : Appends P (x >>= f) s := fun w => by
  obtain ⟨l, hl, hP⟩ := hx w
  obtain ⟨l', hl', hP'⟩ := hf (x s w).1 (x s w).2
  exact ⟨l ++ l', by simp [hl', hl], by simpa [or_imp, forall_and] using And.intro hP hP'⟩

/-- A `bind` whose first step reads the setting: the rest runs on `s` itself. -/
theorem setting_bind {f : Setting → BackupM β} (hf : Appends P (f s) s) :
    Appends P (setting >>= f) s := hf

theorem modifyMeta (f : MetaManager → MetaManager) : Appends P (BackupM.modifyMeta f) s :=
  of_log_eq fun _ => rfl

theorem meta : Appends P BackupM.meta s := of_log_eq fun _ => rfl

theorem call (ctx : Ctx) (answer : Env → Nat → Bool → α) : Appends P (BackupM.call ctx answer) s :=
  of_log_eq fun _ => rfl

theorem logEvent {e : Event} (h : P e) : Appends P (BackupM.logEvent e) s :=
  fun _ => ⟨[e], rfl, by simpa using h⟩

theorem clockNow : Appends P BackupM.clockNow s := of_log_eq fun _ => rfl

end Appends

/-! ### What a run returns -/

/-- Whatever world it starts from, `x` run in the setting `s` returns a value satisfying `Q`. -/
def Ensures {α : Type} (Q : α → Prop) (x : BackupM α) (s : Setting) : Prop :=
  ∀ w, Q (x s w).1

namespace Ensures

variable {α β : Type} {Q R : α → Prop} {s : Setting}

theorem mono {x : BackupM α} (h : Ensures Q x s) (hQR : ∀ a, Q a → R a) : Ensures R x s :=
  fun w => hQR _ (h w)

theorem pure {a : α} (h : Q a) : Ensures Q (Pure.pure a : BackupM α) s := fun _ => h

theorem bind {R : α → Prop} {Q : β → Prop} {x : BackupM α} {f : α → BackupM β}
    (hx : Ensures R x s) (hf : ∀ a, R a → Ensures Q (f a) s) : Ensures Q (x >>= f) s :=
  fun w => hf _ (hx w) _

/-- Any computation returns something. -/
theorem triv (x : BackupM α) : Ensures (fun _ => True) x s := fun _ => trivial

/-- A branch, each side under its condition. -/
theorem ite {c : Prop} [Decidable c] {x y : BackupM α} (hx : c → Ensures Q x s)
    (hy : ¬c → Ensures Q y s) : Ensures Q (if c then x else y) s := by
  split
  exacts [hx ‹_›, hy ‹_›]

theorem setting_bind {Q : β → Prop} {f : Setting → BackupM β} (hf : Ensures Q (f s) s) :
    Ensures Q (setting >>= f) s := hf

end Ensures

/-- A `bind` whose second step may rely on what the first one returns. -/
theorem Appends.bind_of_ensures {α β : Type} {P : Event → Prop} {R : α → Prop} {s : Setting}
    {x : BackupM α} {f : α → BackupM β} (hx : Appends P x s) (hR : Ensures R x s)
    (hf : ∀ a, R a → Appends P (f a) s) : Appends P (x >>= f) s := fun w => by
  obtain ⟨l, hl, hP⟩ := hx w
  obtain ⟨l', hl', hP'⟩ := hf (x s w).1 (hR w) (x s w).2
  exact ⟨l ++ l', by simp [hl', hl], by simpa [or_imp, forall_and] using And.intro hP hP'⟩

/-! ### Pre- and postconditions -/

/-- From every world satisfying `P`, `x` run in the setting `s` returns a value and ends in a
world that together satisfy `Q`. -/
def Triple {α : Type} (P : World → Prop) (x : BackupM α) (Q : α → World → Prop) (s : Setting) :
    Prop :=
  ∀ w, P w → Q (x s w).1 (x s w).2

namespace Triple

variable {α β : Type} {P P' : World → Prop} {Q Q' : α → World → Prop} {s : Setting}

theorem mono {x : BackupM α} (h : Triple P x Q s) (hP : ∀ w, P' w → P w)
    (hQ : ∀ a w, Q a w → Q' a w) : Triple P' x Q' s :=
  fun w hw => hQ _ _ (h w (hP w hw))

theorem pure {a : α} (h : ∀ w, P w → Q a w) : Triple P (Pure.pure a : BackupM α) Q s := h

theorem bind {R : α → World → Prop} {Q : β → World → Prop} {x : BackupM α} {f : α → BackupM β}
    (hx : Triple P x R s) (hf : ∀ a, Triple (R a) (f a) Q s) : Triple P (x >>= f) Q s :=
  fun w hw => hf _ _ (hx w hw)

theorem setting_bind {Q : β → World → Prop} {f : Setting → BackupM β}
    (hf : Triple P (f s) Q s) : Triple P (setting >>= f) Q s := hf

/-- What a computation returns, whatever the world. -/
theorem of_ensures {x : BackupM α} {R : α → Prop} (h : Ensures R x s) :
    Triple P x (fun a _ => R a) s := fun w _ => h w

theorem modifyMeta {f : MetaManager → MetaManager} {Q : Unit → World → Prop}
    (h : ∀ w, P w → Q () (w.setMeta f)) : Triple P (BackupM.modifyMeta f) Q s := h

@[inherit_doc Ensures.ite]
theorem ite {c : Prop} [Decidable c] {x y : BackupM α} (hx : c → Triple P x Q s)
    (hy : ¬c → Triple P y Q s) : Triple P (if c then x else y) Q s := by
  split
  exacts [hx ‹_›, hy ‹_›]

/-- A precondition that does not depend on the world is a hypothesis. -/
theorem intro {R : Prop} {x : BackupM α} (h : R → Triple (fun _ => True) x Q s) :
    Triple (fun _ => R) x Q s := fun w hw => h hw w trivial

/-- A step whose result is known: the rest runs on that result. -/
theorem bind_eq {Q : β → World → Prop} {x : BackupM α} {f : α → BackupM β} {a : α}
    (hx : Triple P x (fun r w => r = a ∧ P' w) s) (hf : Triple P' (f a) Q s) :
    Triple P (x >>= f) Q s := fun w hw => by
  obtain ⟨h₁, h₂⟩ := hx w hw
  rw [bind_apply, h₁]
  exact hf _ h₂

/-- An external call changes the clock only. -/
theorem call {ctx : Ctx} {answer : Env → Nat → Bool → α} {I : MetaManager → Prop} :
    Triple (fun w => I w.meta) (BackupM.call ctx answer) (fun _ w => I w.meta) s :=
  fun _ h => h

/-- A fact every world of the precondition implies, and which does not depend on the world,
may be assumed. -/
theorem assume {R : Prop} {x : BackupM α} (hR : ∀ w, P w → R) (h : R → Triple P x Q s) :
    Triple P x Q s :=
  fun w hw => h (hR w hw) w hw

/-- A proof may fix the MetaManager a run starts from. -/
theorem of_meta {x : BackupM α} (h : ∀ m, Triple (fun w => P w ∧ w.meta = m) x Q s) :
    Triple P x Q s :=
  fun w hw => h w.meta w ⟨hw, rfl⟩

/-- A read of the MetaManager: what follows runs on the one the world holds. -/
theorem meta_bind {f : MetaManager → BackupM β} {Q : β → World → Prop}
    (hf : ∀ m, Triple (fun w => P w ∧ w.meta = m) (f m) Q s) : Triple P (BackupM.meta >>= f) Q s :=
  fun w hw => hf w.meta w ⟨hw, rfl⟩

/-- An external call made at tick `t`: what follows runs on the answer at `t`, from tick `t + 1`
and the same MetaManager. -/
theorem call_at {ctx : Ctx} {answer : Env → Nat → Bool → α} {f : α → BackupM β} {t : Nat}
    {m : MetaManager} {Q : β → World → Prop}
    (hf : Triple (fun w => w.clock = t + 1 ∧ w.meta = m) (f (answer s.env t (s.cancelled ctx t))) Q s) :
    Triple (fun w => w.clock = t ∧ w.meta = m) (BackupM.call ctx answer >>= f) Q s :=
  fun w ⟨hc, hw⟩ => by subst hc; exact hf w.tick ⟨rfl, hw⟩

/-- A write to the MetaManager `m`: what follows runs on the written one, at the same tick. -/
theorem modifyMeta_at {f : MetaManager → MetaManager} {g : Unit → BackupM β} {t : Nat}
    {m : MetaManager} {Q : β → World → Prop}
    (hg : Triple (fun w => w.clock = t ∧ w.meta = f m) (g ()) Q s) :
    Triple (fun w => w.clock = t ∧ w.meta = m) (BackupM.modifyMeta f >>= g) Q s :=
  fun w ⟨hc, hm⟩ => hg (w.setMeta f) ⟨hc, by rw [World.setMeta_meta, hm]⟩

/-- A write to the MetaManager followed by the rest, which starts from the written world. -/
theorem modifyMeta_bind {f : MetaManager → MetaManager} {g : Unit → BackupM β}
    {P' : World → Prop} {Q : β → World → Prop} (hf : ∀ w, P w → P' (w.setMeta f))
    (hg : Triple P' (g ()) Q s) : Triple P (BackupM.modifyMeta f >>= g) Q s :=
  fun w hw => hg _ (hf w hw)

/-- A loop each of whose steps keeps `R` keeps it. -/
theorem forM {γ : Type} {l : List γ} {f : γ → BackupM PUnit} {R : World → Prop}
    (h : ∀ b ∈ l, Triple R (f b) (fun _ => R) s) : Triple R (l.forM f) (fun _ => R) s := by
  induction l with
  | nil => exact .pure fun _ h => h
  | cons b l ih =>
    exact .bind (h b (List.mem_cons_self _ _)) fun _ => ih fun b hb => h b (List.mem_cons_of_mem _ hb)

end Triple

theorem exist_appends (ctx : Ctx) (bucket path : String) {P : Event → Prop} {s : Setting} :
    Appends P (exist ctx bucket path) s := .call _ _

/-- A write appends at most its own `written` event. -/
theorem write_appends (ctx : Ctx) (bucket path : String) (blob : Blob) (s : Setting) :
    Appends (· = .written bucket path blob) (write ctx bucket path blob) s := by
  refine .bind (.call _ _) fun r => ?_
  by_cases h : r.isNone
  · simp only [h, if_true]
    exact .bind (.logEvent rfl) fun _ => .pure r
  · simpa [h] using Appends.pure r

/-- A copy appends at most its own `copied` event. -/
theorem copy_appends (ctx : Ctx) (srcBucket dstBucket src dst : String) (s : Setting) :
    Appends (· = .copied srcBucket dstBucket src dst) (copy ctx srcBucket dstBucket src dst) s := by
  refine .bind (.call _ _) fun r => ?_
  by_cases h : r.isNone
  · simp only [h, if_true]
    refine .bind ?_ fun _ => .pure r
    exact .logEvent rfl
  · simpa [h] using Appends.pure r

theorem retryDo_appends {ctx : Ctx} {fn : BackupM (Option GoError)} {P : Event → Prop}
    {s : Setting} (hfn : Appends P fn s) : ∀ n, Appends P (retryDo ctx fn n) s
  | 0 => .pure _
  | n + 1 => by
    refine .bind hfn fun r => ?_
    rcases r with _ | err
    · exact .pure _
    · by_cases hn : n = 0
      · simpa [hn] using Appends.pure _
      · simp only [hn, if_false]
        refine .setting_bind (.bind .clockNow fun c => ?_)
        by_cases hc : s.cancelled ctx c
        · simpa [hc] using Appends.pure _
        · simpa [hc] using retryDo_appends hfn n

/-- A retry that succeeds: its first attempt succeeded, or it failed with attempts left and
the retry from there succeeded. -/
theorem retryDo_succ_of_none {ctx : Ctx} {fn : BackupM (Option GoError)} {n : Nat} {s : Setting}
    {w : World} (h : (retryDo ctx fn (n + 1) s w).1 = none) :
    (fn s w).1 = none ∧ retryDo ctx fn (n + 1) s w = fn s w ∨
      ∃ n', n = n' + 1 ∧ (fn s w).1 ≠ none ∧
        retryDo ctx fn (n + 1) s w = retryDo ctx fn n s (fn s w).2 := by
  simp only [retryDo, bind_apply] at h ⊢
  cases hr : (fn s w).1 with
  | none => exact .inl ⟨rfl, Prod.ext hr.symm rfl⟩
  | some err =>
    rw [hr] at h
    rcases n with _ | n
    · simp at h
    refine .inr ⟨n, rfl, by simp, ?_⟩
    simp only [Nat.add_one_ne_zero, if_false, bind_apply, setting_apply, clockNow_apply] at h ⊢
    split at h
    · simp at h
    · simp [*]

end MilvusBackup
