import MilvusBackup.Completeness
import MilvusBackup.Lifecycle

/-!
# What serving guarantees

Two promises of the create path, from any state a server reaches along any schedule of
`CreateBackup` requests and task runs:

* **A backup that succeeds is complete.** A task whose `executeCreateBackup` returns `nil`, and
  a synchronous `CreateBackup` that answers *Success*, leave the manifest of the backup with
  every segment marked backed up and every binlog copied, for a request that is not meta only
  and an object store that misses no binlog (`MilvusBackup.server_runTask_complete`,
  `MilvusBackup.server_createBackup_complete`).
* **A meta-only backup copies no data.** Whatever its outcome, its task logs only updates of its
  own record and writes into the backup bucket (`MilvusBackup.server_runTask_metaOnly`).

The first rests on the freshness of the pools' ids along every schedule
(`MilvusBackup.Server.run_poolsFresh`), the second on no collection job being pending when a
task starts (`MilvusBackup.executeCreateBackup_keeps_drained`).
-/

namespace MilvusBackup

open BackupM

section Server

variable {s : Setting} (hmiss : s.env.NoneMissing s.cfg.milvusBucketName)
include hmiss

/-- **A successful backup is complete**: from any state a server reaches, a goroutine whose
`executeCreateBackup` returns `nil` for a request that is not meta only leaves the manifest of
its backup with every segment marked backed up and every binlog copied – on an object store
that misses none of the binlogs Milvus lists. -/
theorem server_runTask_complete (actions : List Action) (i : Nat) (t : Task)
    (ht : (freshServer.run s actions).tasks.get? i = some t) (hmeta : t.request.metaOnly = false)
    (hok : (executeCreateBackup t.ctx t.request t.backup s (freshServer.run s actions).world).1 = none) :
    ((freshServer.run s actions).step s (.runTask i)).world.ManifestBackedUp s.cfg t.backup.id := by
  obtain ⟨hcp, hdp⟩ := Server.run_poolsFresh s actions
  simp only [Server.step, ht]
  exact World.manifestBackedUp_of_collections
    (executeCreateBackup_backsUp hmiss t.ctx t.request t.backup _ hcp hdp hmeta hok)

end Server

/-- `oneSegmentEnv` with an object store whose Milvus bucket holds every object asked about,
and whose backup bucket holds none. -/
def oneSegmentStoreEnv : Env :=
  { oneSegmentEnv with exist := fun _ _ bucket _ => (bucket = "milvus", none) }

/-- The goroutine an asynchronous request for a backup `daily` starts at tick `2`. -/
def dailyAsyncTask : Task :=
  ⟨.request, dailyAsyncRequest "r1",
    { id := "r1", stateCode := .backupInitial, startTime := 2, name := "daily" }⟩

/-- A fresh server takes an asynchronous request for `daily` from the Milvus of `oneSegmentEnv`,
with a store that holds every binlog, and runs its task to `nil`: the manifest is backed up. -/
theorem server_runTask_complete_daily :
    Env.NoneMissing oneSegmentStoreEnv "milvus" ∧
    (freshServer.run ⟨dailyConfig, oneSegmentStoreEnv, none⟩
      [.createBackup .request (dailyAsyncRequest "r1")]).tasks.get? 0 = some dailyAsyncTask ∧
    (executeCreateBackup .request (dailyAsyncRequest "r1") dailyAsyncTask.backup
      ⟨dailyConfig, oneSegmentStoreEnv, none⟩ (freshServer.run ⟨dailyConfig, oneSegmentStoreEnv, none⟩
        [.createBackup .request (dailyAsyncRequest "r1")]).world).1 = none ∧
    ((freshServer.run ⟨dailyConfig, oneSegmentStoreEnv, none⟩
      [.createBackup .request (dailyAsyncRequest "r1")]).step ⟨dailyConfig, oneSegmentStoreEnv, none⟩
        (.runTask 0)).world.ManifestBackedUp dailyConfig "r1" :=
  have hmiss : Env.NoneMissing oneSegmentStoreEnv "milvus" := fun _ _ _ _ => rfl
  have ht : (freshServer.run ⟨dailyConfig, oneSegmentStoreEnv, none⟩
      [.createBackup .request (dailyAsyncRequest "r1")]).tasks.get? 0 = some dailyAsyncTask := rfl
  have hok : (executeCreateBackup .request (dailyAsyncRequest "r1") dailyAsyncTask.backup
      ⟨dailyConfig, oneSegmentStoreEnv, none⟩ (freshServer.run ⟨dailyConfig, oneSegmentStoreEnv, none⟩
        [.createBackup .request (dailyAsyncRequest "r1")]).world).1 = none := by decide
  ⟨hmiss, ht, hok, server_runTask_complete hmiss _ 0 dailyAsyncTask ht rfl hok⟩

section Create

variable {s : Setting} (hmiss : s.env.NoneMissing s.cfg.milvusBucketName)
include hmiss

/-- **A synchronous `CreateBackup` that answers *Success* has backed up its manifest**, from a
world with fresh pools, for a request that is not meta only. The answer is *Success* only when
the task returned `nil`, and it carries the backup's id. -/
theorem createBackup_backsUp (ctx : Ctx) (request : CreateBackupRequest)
    (hsync : request.async = false) (hmeta : request.metaOnly = false) :
    Triple (World.Holds PoolsFresh) (createBackup ctx request)
      (fun r w => r.1.code = .success → w.ManifestBackedUp s.cfg r.1.requestId) s := by
  have hT : ∀ {α : Type} {x : BackupM α}, Keeps PoolsFresh (fun _ => True) x s →
      Triple (World.Holds PoolsFresh) x (fun _ w => w.Holds PoolsFresh) s := Keeps.triple
  have hfail : ∀ (resp : BackupInfoResponse), resp.code ≠ .success →
      Triple (World.Holds PoolsFresh) (pure (resp, none))
        (fun (r : BackupInfoResponse × Option Task) w =>
          r.1.code = .success → w.ManifestBackedUp s.cfg r.1.requestId) s :=
    fun _ hne => .pure fun _ _ h => absurd h hne
  have hexec : ∀ (request : CreateBackupRequest) (backup : BackupInfo), request.metaOnly = false →
      Triple (World.Holds PoolsFresh) (executeCreateBackup ctx request backup)
        (fun err w => err = none → w.ManifestBackedUp s.cfg backup.id) s :=
    fun request backup hmeta w hw herr => World.manifestBackedUp_of_collections
      (executeCreateBackup_backsUp hmiss ctx request backup w hw.1 hw.2 hmeta herr)
  unfold createBackup
  lift_lets
  intro jpId
  suffices hId : ∀ r : CreateBackupRequest, r.async = false → r.metaOnly = false →
      Triple (World.Holds PoolsFresh) (jpId r)
        (fun r w => r.1.code = .success → w.ManifestBackedUp s.cfg r.1.requestId) s from
    .ite (fun _ => .bind (hT (.call _ _)) fun _ => .bind_eq (.pure fun _ hw => ⟨rfl, hw⟩)
      (hId _ hsync hmeta)) fun _ => .bind_eq (.pure fun _ hw => ⟨rfl, hw⟩) (hId _ hsync hmeta)
  intro request hsync hmeta
  unfold jpId
  lift_lets
  intro resp jpName
  suffices hName : ∀ r : CreateBackupRequest, r.async = false → r.metaOnly = false →
      r.requestId = resp.requestId → Triple (World.Holds PoolsFresh) (jpName r)
        (fun r w => r.1.code = .success → w.ManifestBackedUp s.cfg r.1.requestId) s from
    .ite (fun _ => .bind (hT (.bind (.call _ _) fun _ => .bind (.call _ _) fun _ => .pure _))
      fun _ => .bind_eq (.pure fun _ hw => ⟨rfl, hw⟩) (hName _ hsync hmeta rfl))
      fun _ => .bind_eq (.pure fun _ hw => ⟨rfl, hw⟩) (hName _ hsync hmeta rfl)
  intro request hsync hmeta hid
  unfold jpName
  lift_lets
  intro jpVersion jpValid errMsg
  have hVersion : ∀ y, Triple (World.Holds PoolsFresh) (jpVersion y)
      (fun r w => r.1.code = .success → w.ManifestBackedUp s.cfg r.1.requestId) s := fun _ => by
    unfold jpVersion
    refine .bind (hT (.call _ _)) fun _ => ?_
    dsimp only
    split
    · exact hfail _ nofun
    simp only [hsync, Bool.false_eq_true, if_false, pure_bind]
    refine .bind (hT (.call _ _)) fun _ => .bind (hT (.modifyMeta fun _ _ _ h => h)) fun _ =>
      .bind (hexec request _ hmeta) fun err => ?_
    intro w herr
    cases err with
    | some e => exact nofun
    | none => exact fun _ => hid ▸ herr rfl
  have hValid : ∀ y, Triple (World.Holds PoolsFresh) (jpValid y)
      (fun r w => r.1.code = .success → w.ManifestBackedUp s.cfg r.1.requestId) s := fun _ => by
    unfold jpValid
    split
    · exact hfail _ nofun
    · exact .bind_eq (.pure fun _ hw => ⟨rfl, hw⟩) (hVersion ())
  refine .ite (fun _ => .setting_bind (.bind (hT (.call _ _)) fun _ => ?_))
    fun _ => .bind_eq (.pure fun _ hw => ⟨rfl, hw⟩) (hValid ())
  dsimp only
  split
  · exact hfail _ nofun
  · exact .bind_eq (.pure fun _ hw => ⟨rfl, hw⟩) (.ite (fun _ => hfail _ nofun)
      fun _ => .bind_eq (.pure fun _ hw => ⟨rfl, hw⟩) (hValid ()))

/-- The same of a server: from any state it reaches, a synchronous `CreateBackup` for a request
that is not meta only, answered *Success*, leaves the manifest of its backup backed up. -/
theorem server_createBackup_complete (actions : List Action) (ctx : Ctx)
    (request : CreateBackupRequest) (hsync : request.async = false)
    (hmeta : request.metaOnly = false)
    (hok : (createBackup ctx request s (freshServer.run s actions).world).1.1.code = .success) :
    ((freshServer.run s actions).step s (.createBackup ctx request)).world.ManifestBackedUp s.cfg
      (createBackup ctx request s (freshServer.run s actions).world).1.1.requestId :=
  createBackup_backsUp hmiss ctx request hsync hmeta _ (Server.run_poolsFresh s actions) hok

end Create

/-- A fresh server takes a synchronous request for `daily` from the Milvus of `oneSegmentEnv`,
with a store that holds every binlog, and answers *Success*: the manifest is backed up. -/
theorem server_createBackup_complete_daily :
    Env.NoneMissing oneSegmentStoreEnv "milvus" ∧
    (createBackup .request dailyRequest ⟨dailyConfig, oneSegmentStoreEnv, none⟩
      (freshServer.run ⟨dailyConfig, oneSegmentStoreEnv, none⟩ []).world).1.1.code = .success ∧
    ((freshServer.run ⟨dailyConfig, oneSegmentStoreEnv, none⟩ []).step
      ⟨dailyConfig, oneSegmentStoreEnv, none⟩ (.createBackup .request dailyRequest)).world.ManifestBackedUp
        dailyConfig (createBackup .request dailyRequest ⟨dailyConfig, oneSegmentStoreEnv, none⟩
          (freshServer.run ⟨dailyConfig, oneSegmentStoreEnv, none⟩ []).world).1.1.requestId :=
  have hmiss : Env.NoneMissing oneSegmentStoreEnv "milvus" := fun _ _ _ _ => rfl
  have hok : (createBackup .request dailyRequest ⟨dailyConfig, oneSegmentStoreEnv, none⟩
      (freshServer.run ⟨dailyConfig, oneSegmentStoreEnv, none⟩ []).world).1.1.code = .success := by
    decide
  ⟨hmiss, hok, server_createBackup_complete hmiss [] .request dailyRequest rfl rfl hok⟩

/-! ### A meta-only task -/

/-- Whether a collection job is a prepare job. -/
def CollectionJob.isPrepare : CollectionJob → Bool
  | .prepare .. => true
  | .execute _ => false

/-- What a meta-only task may log: updates of its own record, and writes into the backup bucket.
-/
def MetaOnlyEvent (cfg : Config) (id : String) : Event → Prop
  | .written bucket _ _ => bucket = cfg.backupBucketName
  | .backupUpdated id' _ => id' = id
  | .copied .. => False
  | .removed .. => False

section MetaOnly

variable {s : Setting}

/-- A meta-only task submits only prepare jobs, which copy nothing: from a world whose pending
collection jobs are prepare jobs, it keeps them so and logs only updates of its record and the
writes of its manifest. -/
theorem executeCreateBackup_keeps_metaOnly (ctx : Ctx) (request : CreateBackupRequest)
    (backupInfo : BackupInfo) (hmeta : request.metaOnly = true) :
    Keeps (fun _ cp _ => ∀ j ∈ cp.pending, j.2.isPrepare = true)
      (MetaOnlyEvent s.cfg backupInfo.id) (executeCreateBackup ctx request backupInfo) s := by
  have hwait : ∀ ids, Keeps (fun _ cp _ => ∀ j ∈ cp.pending, j.2.isPrepare = true)
      (MetaOnlyEvent s.cfg backupInfo.id) (waitJobs collectionPoolRef runCollectionJob ids) s :=
    fun _ => .waitJobs collectionPoolRef_focuses (fun _ _ hw hsub x hx => hw x (hsub.subset hx))
      (fun _ _ hw => hw) fun _ j hw hj => by
        obtain ⟨_, ⟨b, c, force⟩ | c⟩ := j
        · exact .retryDo (backupCollectionPrepare_keeps _ _ _ _ (fun _ _ _ _ _ h => h)
            (fun _ _ _ _ _ h => h) (fun _ _ _ _ h => h) (fun _ _ _ _ h => h)) _
        · exact absurd (hw _ hj) Bool.false_ne_true
  have hfail : ∀ opts, Keeps (fun _ cp _ => ∀ j ∈ cp.pending, j.2.isPrepare = true)
      (MetaOnlyEvent s.cfg backupInfo.id) (updateBackup backupInfo.id opts) s :=
    fun opts => updateBackup_keeps opts (fun _ _ _ _ h => h) fun _ => rfl
  unfold executeCreateBackup
  refine .bind (parseBackupCollections_keeps _) fun _ => ?_
  split
  · exact .bind (hfail _) fun _ => .pure _
  refine .bind (.mapM fun _ _ => .submitWithId collectionPoolRef_focuses fun _ hw x hx => ?_)
    fun _ => .bind (hwait _) fun _ => ?_
  · rcases List.mem_append.mp hx with hx | hx
    · exact hw x hx
    · rw [List.mem_singleton.mp hx]
      rfl
  simp only [pure_bind]
  split
  · exact .bind (hfail _) fun _ => .pure _
  split
  · next hexec => simp [hmeta] at hexec
  exact .bind (.call _ _) fun _ => .bind (hfail _) fun _ =>
    .bind (.of_appends (writeBackupInfoMeta_keeps _ _) (writeBackupInfoMeta_appends _ _ fun _ _ => rfl))
      fun _ => by split <;> exact .pure _

/-- **A meta-only backup copies no data**: from any state a server reaches, the goroutine of a
task whose request is meta only, whatever its outcome, logs only updates of its own record and
writes into the backup bucket – no copy, and no removal. -/
theorem server_runTask_metaOnly (actions : List Action) (i : Nat) (t : Task)
    (ht : (freshServer.run s actions).tasks.get? i = some t) (hmeta : t.request.metaOnly = true) :
    ∃ l, ((freshServer.run s actions).step s (.runTask i)).world.log =
      (freshServer.run s actions).world.log ++ l ∧ ∀ e ∈ l, MetaOnlyEvent s.cfg t.backup.id e := by
  have hdrained : (freshServer.run s actions).world.collectionPool.pending = [] :=
    Server.run_keeps (fun _ _ _ _ h => h) (executeCreateBackup_keeps_drained · · ·) actions
      (show freshServer.world.Holds fun _ cp _ => cp.pending = [] from rfl)
  simp only [Server.step, ht]
  exact (executeCreateBackup_keeps_metaOnly t.ctx t.request t.backup hmeta _
    fun j hj => absurd (hdrained ▸ hj) (List.not_mem_nil _)).2

end MetaOnly

/-- An asynchronous request for a meta-only backup `daily`. -/
def dailyMetaOnlyTask : Task :=
  ⟨.request, { dailyAsyncRequest "r1" with metaOnly := true },
    { id := "r1", stateCode := .backupInitial, startTime := 2, name := "daily" }⟩

/-- A fresh server takes an asynchronous request for a meta-only backup `daily` of the Milvus of
`oneSegmentEnv`, and runs its task. -/
theorem server_runTask_metaOnly_daily :
    (freshServer.run ⟨dailyConfig, oneSegmentStoreEnv, none⟩
      [.createBackup .request { dailyAsyncRequest "r1" with metaOnly := true }]).tasks.get? 0 =
      some dailyMetaOnlyTask ∧
    ∃ l, ((freshServer.run ⟨dailyConfig, oneSegmentStoreEnv, none⟩
      [.createBackup .request { dailyAsyncRequest "r1" with metaOnly := true }]).step
        ⟨dailyConfig, oneSegmentStoreEnv, none⟩ (.runTask 0)).world.log =
      (freshServer.run ⟨dailyConfig, oneSegmentStoreEnv, none⟩
        [.createBackup .request { dailyAsyncRequest "r1" with metaOnly := true }]).world.log ++ l ∧
      ∀ e ∈ l, MetaOnlyEvent dailyConfig "r1" e :=
  have ht : (freshServer.run ⟨dailyConfig, oneSegmentStoreEnv, none⟩
      [.createBackup .request { dailyAsyncRequest "r1" with metaOnly := true }]).tasks.get? 0 =
      some dailyMetaOnlyTask := rfl
  ⟨ht, server_runTask_metaOnly _ 0 dailyMetaOnlyTask ht rfl⟩

end MilvusBackup
