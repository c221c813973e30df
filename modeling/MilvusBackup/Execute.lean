import Mathlib.Data.List.Sort
import MilvusBackup.CopySegment
import MilvusBackup.Prepare

/-!
# Executing a backup

`executeCreateBackup` runs a backup task in two waves on the collection pool – a prepare job
per requested collection, then an execute job per collection the MetaManager holds for the
backup – records the task as successful, and writes the manifest.

An execute job (`backupCollectionExecute`) gathers the segments of every partition recorded
under the collection's id, smallest first, and hands them to `copySegments`, which fills each
one and submits its copy to the copy pool before waiting for all the copies. A fill that fails
returns at once, **without waiting for the copies already submitted**.

The manifest is written after the state is set to `BACKUP_SUCCESS`, with the caller's context,
and the results of the six writes are dropped: neither a failed write nor a cancelled caller
changes the recorded state. What it writes, when the store takes it, is the full meta the
MetaManager joins for the backup, under the backup's name
(`MilvusBackup.writeBackupInfoMeta_writes`).
-/

namespace MilvusBackup

open BackupM

/-! ### Copying the segments of a collection -/

/-- The loop of `copySegments`: each segment is filled, then its copy submitted to the copy
pool; a fill that fails ends the function with its error. -/
def submitCopyJobs (ctx : Ctx) :
    List SegmentBackupInfo → List Nat → BackupM (Except GoError (List Nat))
  | [], jobIds => pure (.ok jobIds)
  | segment :: rest, jobIds => do
    match ← fillSegmentBackupInfo ctx segment with
    | some err => pure (.error err)
    | none =>
      let jobId ← submitWithId copyPoolRef segment.segmentId
      submitCopyJobs ctx rest (jobIds ++ [jobId])

/-- `copySegments(ctx, segments)`: a copy job runs `copySegment` with the pool's context. -/
def copySegments (ctx : Ctx) (segments : List SegmentBackupInfo) : BackupM (Option GoError) := do
  match ← submitCopyJobs ctx segments [] with
  | .error err => pure (some err)
  | .ok jobIds => waitJobs copyPoolRef (copySegment .engine) jobIds

/-- The segments `backupCollectionExecute` gathers for a collection: those of every partition
recorded under its id, in the order of the tables. -/
def collectionSegments (m : MetaManager) (collectionBackup : CollectionBackupInfo) :
    List SegmentBackupInfo :=
  (m.getPartitions collectionBackup.collectionId).flatMap fun partition =>
    m.getSegments partition.partitionId

/-- `backupCollectionExecute(ctx, collectionBackup)`: `sort.SliceStable` by size is a stable
insertion sort. -/
def backupCollectionExecute (ctx : Ctx) (collectionBackup : CollectionBackupInfo) :
    BackupM (Option GoError) := do
  let m ← meta
  let segmentBackupInfos := (collectionSegments m collectionBackup).insertionSort
    fun a b => a.size ≤ b.size
  if let some err ← copySegments ctx segmentBackupInfos then return some err
  let endTime ← timeNow
  modifyMeta (·.updateCollection collectionBackup.id collectionBackup.collectionId
    [.setCollectionEndTime endTime])
  return none

/-- A job of the collection pool, run with the pool's context: a prepare, inside `retry.Do`
with 128 attempts, or an execute. -/
def runCollectionJob : CollectionJob → BackupM (Option GoError)
  | .prepare backupInfo collection force =>
    retryDo .engine (backupCollectionPrepare .engine backupInfo collection force) 128
  | .execute collectionBackup => backupCollectionExecute .engine collectionBackup

/-! ### The manifest -/

/-- Modelled from the spec: `BackupMetaPath` and the other manifest paths are declared outside
the source; the spec (§4.E) puts the manifest in six files under `{backupRoot}/{name}/meta/`. -/
def metaPath (backupRootPath backupName file : String) : String :=
  backupRootPath ++ seperator ++ backupName ++ seperator ++ "meta" ++ seperator ++ file

@[inherit_doc metaPath]
def backupMetaPath (backupRootPath backupName : String) : String :=
  metaPath backupRootPath backupName "backup_meta.json"

@[inherit_doc metaPath]
def collectionMetaPath (backupRootPath backupName : String) : String :=
  metaPath backupRootPath backupName "collection_meta.json"

@[inherit_doc metaPath]
def partitionMetaPath (backupRootPath backupName : String) : String :=
  metaPath backupRootPath backupName "partition_meta.json"

@[inherit_doc metaPath]
def segmentMetaPath (backupRootPath backupName : String) : String :=
  metaPath backupRootPath backupName "segment_meta.json"

@[inherit_doc metaPath]
def fullMetaPath (backupRootPath backupName : String) : String :=
  metaPath backupRootPath backupName "full_meta.json"

@[inherit_doc metaPath]
def channelCPMetaPath (backupRootPath backupName : String) : String :=
  metaPath backupRootPath backupName "channel_cp_meta.json"

/-- The panic of `strings.Split(vCh, "_")[1]` on a channel name without `_`. -/
def indexOutOfRange : GoError := "runtime error: index out of range [1] with length 1"

/-- The physical channel of a virtual channel, `Split(vCh, "_")[0] + "_" + Split(vCh, "_")[1]`;
`none` is the panic of a name without `_`. -/
def physicalChannel (vCh : String) : Option String :=
  match Go.split vCh '_' with
  | p0 :: p1 :: _ => some (p0 ++ "_" ++ p1)
  | _ => none

/-- `collectionPositions`: the channel positions of each collection, by collection name – a
later collection of one name replaces an earlier one. -/
def collectionPositionsOf (collectionBackups : List CollectionBackupInfo) :
    Option (List (String × List ChannelPosition)) :=
  collectionBackups.foldlM (fun collectionPositions collectionBackup => do
    let collectionCPs ← collectionBackup.channelCheckpoints.mapM fun (vCh, position) =>
      (physicalChannel vCh).map fun pCh => ({ name := pCh, position := position } : ChannelPosition)
    pure (upsert Prod.fst (collectionBackup.collectionName, collectionCPs) collectionPositions)) []

/-- `writeBackupInfoMeta(ctx, id)`: the full meta of the backup (Go's zero value if there is
none) serialized into the five manifest objects, and the channel positions into the sixth; the
results of the writes are dropped. -/
def writeBackupInfoMeta (ctx : Ctx) (id : String) : BackupM (Option GoError) := do
  let m ← meta
  let backupInfo := (m.getFullMeta id).getD {}
  match collectionPositionsOf backupInfo.collectionBackups with
  | none => return some indexOutOfRange
  | some collectionPositions =>
  let s ← setting
  let bucket := s.cfg.backupBucketName
  let root := s.cfg.backupRootPath
  let name := backupInfo.name
  discard <| write ctx bucket (backupMetaPath root name) (.backupMeta backupInfo)
  discard <| write ctx bucket (collectionMetaPath root name) (.collectionMeta backupInfo)
  discard <| write ctx bucket (partitionMetaPath root name) (.partitionMeta backupInfo)
  discard <| write ctx bucket (segmentMetaPath root name) (.segmentMeta backupInfo)
  discard <| write ctx bucket (fullMetaPath root name) (.fullMeta backupInfo)
  discard <| write ctx bucket (channelCPMetaPath root name) (.channelCPMeta collectionPositions)
  return none

/-! ### The two waves -/

/-- `executeCreateBackup(ctx, request, backupInfo)`, under the backup context's mutex. -/
def executeCreateBackup (ctx : Ctx) (request : CreateBackupRequest) (backupInfo : BackupInfo) :
    BackupM (Option GoError) := do
  match ← parseBackupCollections request with
  | .error err =>
    updateBackup backupInfo.id [.setStateCode .backupFail, .setErrorMessage err]
    return some err
  | .ok toBackupCollections =>
  let jobIds ← toBackupCollections.mapM fun collection =>
    submitWithId collectionPoolRef (.prepare backupInfo collection request.force)
  if let some err ← waitJobs collectionPoolRef runCollectionJob jobIds then
    updateBackup backupInfo.id [.setStateCode .backupFail, .setErrorMessage err]
    return some err
  if !request.metaOnly then
    let m ← meta
    let executeIds ← (m.getCollections backupInfo.id).mapM fun collection =>
      submitWithId collectionPoolRef (.execute collection)
    if let some err ← waitJobs collectionPoolRef runCollectionJob (jobIds ++ executeIds) then
      updateBackup backupInfo.id [.setStateCode .backupFail, .setErrorMessage err]
      return some err
  let endTime ← timeNow
  updateBackup backupInfo.id [.setStateCode .backupSuccess, .setEndTime endTime]
  if let some err ← writeBackupInfoMeta ctx backupInfo.id then return some err
  return none

/-! ### What a backup writes -/

section Keeps

variable {I : Invariant} {P : Event → Prop} {s : Setting}

theorem submitCopyJobs_keeps (ctx : Ctx) {segments : List SegmentBackupInfo}
    (hfill : ∀ seg ∈ segments, ∀ opts m cp dp, SegmentOpt.OfCreatePath opts → I m cp dp →
      I (m.updateSegment seg.segmentId opts) cp dp)
    (hsubmit : ∀ seg ∈ segments, ∀ m cp dp, I m cp dp →
      I m cp ⟨dp.nextId + 1, dp.pending ++ [(dp.nextId, seg.segmentId)], dp.finished⟩) :
    ∀ jobIds, Keeps I P (submitCopyJobs ctx segments jobIds) s := by
  induction segments with
  | nil => exact fun _ => .pure _
  | cons seg rest ih =>
    intro jobIds
    refine .bind (fillSegmentBackupInfo_keeps ctx seg s (hfill seg (List.mem_cons_self _ _)))
      fun r => ?_
    split
    · exact .pure _
    · exact .bind (.submitWithId copyPoolRef_focuses fun _ hw =>
          hsubmit seg (List.mem_cons_self _ _) _ _ _ hw)
        fun _ => ih (fun seg h => hfill seg (List.mem_cons_of_mem _ h))
          (fun seg h => hsubmit seg (List.mem_cons_of_mem _ h)) _

/-- `copySegments` fills its segments, submits their copies and waits: it keeps what these
steps keep. -/
theorem copySegments_keeps_of_wait (ctx : Ctx) {segments : List SegmentBackupInfo}
    (hfill : ∀ seg ∈ segments, ∀ opts m cp dp, SegmentOpt.OfCreatePath opts → I m cp dp →
      I (m.updateSegment seg.segmentId opts) cp dp)
    (hsubmit : ∀ seg ∈ segments, ∀ m cp dp, I m cp dp →
      I m cp ⟨dp.nextId + 1, dp.pending ++ [(dp.nextId, seg.segmentId)], dp.finished⟩)
    (hwait : ∀ ids, Keeps I P (waitJobs copyPoolRef (copySegment .engine) ids) s) :
    Keeps I P (copySegments ctx segments) s :=
  .bind (submitCopyJobs_keeps ctx hfill hsubmit []) fun _ => by
    split
    · exact .pure _
    · exact hwait _

/-- `copySegments` fills its segments, submits their copies and runs pending copies: it keeps
what these steps keep. -/
theorem copySegments_keeps (ctx : Ctx) {segments : List SegmentBackupInfo}
    (hfill : ∀ seg ∈ segments, ∀ opts m cp dp, SegmentOpt.OfCreatePath opts → I m cp dp →
      I (m.updateSegment seg.segmentId opts) cp dp)
    (hsubmit : ∀ seg ∈ segments, ∀ m cp dp, I m cp dp →
      I m cp ⟨dp.nextId + 1, dp.pending ++ [(dp.nextId, seg.segmentId)], dp.finished⟩)
    (hdrop : ∀ rest m cp dp, I m cp dp → rest.Sublist dp.pending →
      I m cp ⟨dp.nextId, rest, dp.finished⟩)
    (hfinish : ∀ r m cp dp, I m cp dp → I m cp ⟨dp.nextId, dp.pending, dp.finished ++ [r]⟩)
    (hrun : ∀ j m cp dp, I m cp dp → j ∈ dp.pending → Keeps I P (copySegment .engine j.2) s) :
    Keeps I P (copySegments ctx segments) s :=
  copySegments_keeps_of_wait ctx hfill hsubmit fun _ =>
    .waitJobs copyPoolRef_focuses (fun _ rest hw hsub => hdrop rest _ _ _ hw hsub)
      (fun _ r hw => hfinish r _ _ _ hw) fun _ j hw hj => hrun j _ _ _ hw hj

/-- An invariant kept by what a collection job of backup `id` writes: its own collection
records, the partition and segment tables every backup shares, and the copy pool. -/
structure KeptByJob (id : String) (I : Invariant) : Prop where
  addCollection : ∀ c m cp dp, c.id = id → I m cp dp → I (m.addCollection c) cp dp
  updateCollection : ∀ collectionId opts m cp dp, I m cp dp →
    I (m.updateCollection id collectionId opts) cp dp
  addPartition : ∀ p m cp dp, I m cp dp → I (m.addPartition p) cp dp
  addSegment : ∀ (seg : EntitySegment) m cp dp, I m cp dp →
    I (m.addSegment seg.toSegmentBackupInfo) cp dp
  updateSegment : ∀ segmentId opts m cp dp, SegmentOpt.OfCreatePath opts → I m cp dp →
    I (m.updateSegment segmentId opts) cp dp
  copyPool : ∀ m cp dp dp', I m cp dp → I m cp dp'

/-- An invariant kept by what backup `id` writes – what its jobs write, and its own backup
record – and by the collection pool as long as the jobs submitted to it are jobs of `id`, which
are then the only ones pending. -/
structure KeptByBackup (id : String) (I : Invariant) extends KeptByJob id I : Prop where
  updateBackup : ∀ opts m cp dp, I m cp dp → I (m.updateBackup id opts) cp dp
  submit : ∀ job m cp dp, job.backupId = id → I m cp dp →
    I m ⟨cp.nextId + 1, cp.pending ++ [(cp.nextId, job)], cp.finished⟩ dp
  drop : ∀ rest m cp dp, I m cp dp → rest.Sublist cp.pending → I m ⟨cp.nextId, rest, cp.finished⟩ dp
  finish : ∀ r m cp dp, I m cp dp → I m ⟨cp.nextId, cp.pending, cp.finished ++ [r]⟩ dp
  pending : ∀ j m cp dp, I m cp dp → j ∈ cp.pending → j.2.backupId = id

/-- An execute job keeps what `copySegments` keeps, when the end time of its own collection
record keeps it too. -/
theorem backupCollectionExecute_keeps_of_copies (ctx : Ctx) (collectionBackup : CollectionBackupInfo)
    (hcopies : ∀ segments, Keeps I P (copySegments ctx segments) s)
    (hcollection : ∀ collectionId opts m cp dp, I m cp dp →
      I (m.updateCollection collectionBackup.id collectionId opts) cp dp) :
    Keeps I P (backupCollectionExecute ctx collectionBackup) s :=
  .bind .meta fun _ => .bind (hcopies _) fun _ => by
    simp only [pure_bind]
    split
    · exact .pure _
    · exact .bind (.call _ _) fun _ => .bind (.modifyMeta (hcollection _ _)) fun _ => .pure _

/-- **What an execute job writes**: segment records, the copy pool, and the end time of its
own collection record; what it logs are copies from the Milvus bucket to the backup bucket. -/
theorem backupCollectionExecute_keeps (ctx : Ctx) (collectionBackup : CollectionBackupInfo)
    (hsegment : ∀ segmentId opts m cp dp, SegmentOpt.OfCreatePath opts → I m cp dp →
      I (m.updateSegment segmentId opts) cp dp)
    (hcollection : ∀ collectionId opts m cp dp, I m cp dp →
      I (m.updateCollection collectionBackup.id collectionId opts) cp dp)
    (hcopyPool : ∀ m cp dp dp', I m cp dp → I m cp dp')
    (hcopied : ∀ x t, P (.copied s.cfg.milvusBucketName s.cfg.backupBucketName x t)) :
    Keeps I P (backupCollectionExecute ctx collectionBackup) s :=
  backupCollectionExecute_keeps_of_copies ctx collectionBackup (fun _ => copySegments_keeps ctx
    (fun _ _ => hsegment _) (fun _ _ _ _ _ => hcopyPool _ _ _ _)
    (fun _ _ _ _ hw _ => hcopyPool _ _ _ _ hw) (fun _ _ _ _ => hcopyPool _ _ _ _)
    fun _ _ _ _ _ _ => .of_appends (copySegment_keeps _ _ s (hsegment _)) fun w =>
      (copySegment_appends _ _ s w).imp fun _ ⟨hl, he⟩ => ⟨hl, fun e h => by
        obtain ⟨-, -, x, t, rfl, -⟩ := he e h
        exact hcopied x t⟩) hcollection

@[inherit_doc backupCollectionExecute_keeps]
theorem runCollectionJob_keeps_events (job : CollectionJob) (h : KeptByJob job.backupId I)
    (hcopied : ∀ x t, P (.copied s.cfg.milvusBucketName s.cfg.backupBucketName x t)) :
    Keeps I P (runCollectionJob job) s := by
  cases job with
  | prepare backupInfo collection force =>
    exact .retryDo (backupCollectionPrepare_keeps _ _ _ _ h.addCollection h.updateCollection
      h.addPartition h.addSegment) _
  | execute collectionBackup =>
    exact backupCollectionExecute_keeps _ _ h.updateSegment h.updateCollection h.copyPool hcopied

theorem runCollectionJob_keeps (job : CollectionJob) (h : KeptByJob job.backupId I) :
    Keeps I (fun _ => True) (runCollectionJob job) s :=
  runCollectionJob_keeps_events job h fun _ _ => trivial

theorem updateBackup_keeps {id : String} (opts : List BackupOpt)
    (h : ∀ opts m cp dp, I m cp dp → I (m.updateBackup id opts) cp dp)
    (hupdated : ∀ opts, P (.backupUpdated id opts)) : Keeps I P (updateBackup id opts) s :=
  .bind (.modifyMeta (h _)) fun _ => .logEvent (hupdated opts)

theorem writeBackupInfoMeta_keeps (ctx : Ctx) (id : String) :
    Keeps I (fun _ => True) (writeBackupInfoMeta ctx id) s := by
  refine .bind .meta fun _ => ?_
  dsimp only
  split
  · exact .pure _
  refine .setting_bind ?_
  exact .bind (.write _ _ _ _) fun _ => .bind (.write _ _ _ _) fun _ =>
    .bind (.write _ _ _ _) fun _ => .bind (.write _ _ _ _) fun _ =>
    .bind (.write _ _ _ _) fun _ => .bind (.write _ _ _ _) fun _ => .pure _

/-- The manifest is written to the backup bucket. -/
theorem writeBackupInfoMeta_appends (ctx : Ctx) (id : String)
    (hwritten : ∀ path blob, P (.written s.cfg.backupBucketName path blob)) :
    Appends P (writeBackupInfoMeta ctx id) s := by
  have hw : ∀ path blob, Appends P (write ctx s.cfg.backupBucketName path blob) s :=
    fun path blob => (write_appends _ _ _ _ s).mono fun _ h => h ▸ hwritten path blob
  refine .bind .meta fun _ => ?_
  dsimp only
  split
  · exact .pure _
  refine .setting_bind ?_
  exact .bind (hw _ _) fun _ => .bind (hw _ _) fun _ => .bind (hw _ _) fun _ =>
    .bind (hw _ _) fun _ => .bind (hw _ _) fun _ => .bind (hw _ _) fun _ => .pure _

/-- `executeCreateBackup` keeps what its waits on the collection pool keep, when its submissions
and the updates of its own backup record keep it too. -/
theorem executeCreateBackup_keeps_of_wait (ctx : Ctx) (request : CreateBackupRequest)
    (backupInfo : BackupInfo)
    (hwait : ∀ ids, Keeps I P (waitJobs collectionPoolRef runCollectionJob ids) s)
    (hupd : ∀ opts m cp dp, I m cp dp → I (m.updateBackup backupInfo.id opts) cp dp)
    (hsubmit : ∀ job m cp dp, job.backupId = backupInfo.id → I m cp dp →
      I m ⟨cp.nextId + 1, cp.pending ++ [(cp.nextId, job)], cp.finished⟩ dp)
    (hupdated : ∀ opts, P (.backupUpdated backupInfo.id opts))
    (hwritten : ∀ path blob, P (.written s.cfg.backupBucketName path blob)) :
    Keeps I P (executeCreateBackup ctx request backupInfo) s := by
  have hfail : ∀ opts, Keeps I P (updateBackup backupInfo.id opts) s :=
    fun opts => updateBackup_keeps opts hupd hupdated
  unfold executeCreateBackup
  refine .bind (parseBackupCollections_keeps _) fun _ => ?_
  split
  · exact .bind (hfail _) fun _ => .pure _
  refine .bind (.mapM fun _ _ => .submitWithId collectionPoolRef_focuses
    fun _ hw => hsubmit _ _ _ _ rfl hw) fun _ => .bind (hwait _) fun _ => ?_
  simp only [pure_bind]
  split
  · exact .bind (hfail _) fun _ => .pure _
  split
  on_goal 1 =>
    refine .bind .meta fun m => .bind (.mapM fun c hc => .submitWithId collectionPoolRef_focuses
      fun _ hw => hsubmit _ _ _ _ (of_decide_eq_true (List.mem_filter.mp hc).2) hw) fun _ =>
      .bind (hwait _) fun _ => ?_
    split
    · exact .bind (hfail _) fun _ => .pure _
  all_goals
    exact .bind (.call _ _) fun _ => .bind (hfail _) fun _ =>
      .bind (.of_appends (writeBackupInfoMeta_keeps _ _) (writeBackupInfoMeta_appends _ _ hwritten))
        fun _ => by split <;> exact .pure _

/-- **What a backup writes and logs**: `executeCreateBackup` for the task `backupInfo` keeps every
invariant that the writes of `backupInfo.id` keep, as long as every job pending in the collection
pool keeps it too; it logs the updates of its backup record, writes to the backup bucket, and
copies from the Milvus bucket to the backup bucket. -/
theorem executeCreateBackup_keeps_events (ctx : Ctx) (request : CreateBackupRequest)
    (backupInfo : BackupInfo)
    (hjob : ∀ j m cp dp, I m cp dp → j ∈ cp.pending → KeptByJob j.2.backupId I)
    (hupd : ∀ opts m cp dp, I m cp dp → I (m.updateBackup backupInfo.id opts) cp dp)
    (hsubmit : ∀ job m cp dp, job.backupId = backupInfo.id → I m cp dp →
      I m ⟨cp.nextId + 1, cp.pending ++ [(cp.nextId, job)], cp.finished⟩ dp)
    (hdrop : ∀ rest m cp dp, I m cp dp → rest.Sublist cp.pending → I m ⟨cp.nextId, rest, cp.finished⟩ dp)
    (hfinish : ∀ r m cp dp, I m cp dp → I m ⟨cp.nextId, cp.pending, cp.finished ++ [r]⟩ dp)
    (hupdated : ∀ opts, P (.backupUpdated backupInfo.id opts))
    (hwritten : ∀ path blob, P (.written s.cfg.backupBucketName path blob))
    (hcopied : ∀ x t, P (.copied s.cfg.milvusBucketName s.cfg.backupBucketName x t)) :
    Keeps I P (executeCreateBackup ctx request backupInfo) s :=
  executeCreateBackup_keeps_of_wait ctx request backupInfo
    (fun _ => .waitJobs collectionPoolRef_focuses (fun _ rest hw hsub => hdrop rest _ _ _ hw hsub)
      (fun _ r hw => hfinish r _ _ _ hw)
      fun _ j hw hj => runCollectionJob_keeps_events j.2 (hjob j _ _ _ hw hj) hcopied)
    hupd hsubmit hupdated hwritten

/-- **What a backup writes**: `executeCreateBackup` for the task `backupInfo` keeps every
invariant that the writes of `backupInfo.id` keep, as long as the jobs of the collection pool are
jobs of that backup. -/
theorem executeCreateBackup_keeps (ctx : Ctx) (request : CreateBackupRequest)
    (backupInfo : BackupInfo) (h : KeptByBackup backupInfo.id I) :
    Keeps I (fun _ => True) (executeCreateBackup ctx request backupInfo) s :=
  executeCreateBackup_keeps_events ctx request backupInfo
    (fun j _ _ _ hw hj => h.pending j _ _ _ hw hj ▸ h.toKeptByJob) h.updateBackup h.submit h.drop
    h.finish (fun _ => trivial) (fun _ _ => trivial) fun _ _ => trivial

end Keeps

/-! ### What the manifest holds -/

/-- The six objects of a manifest, as the log records them once the object store accepts them:
the five serializations of the backup and its channel positions, under
`{backupRoot}/{name}/meta/`. -/
def manifestEvents (cfg : Config) (backupInfo : BackupInfo)
    (collectionPositions : List (String × List ChannelPosition)) : List Event :=
  [.written cfg.backupBucketName (backupMetaPath cfg.backupRootPath backupInfo.name)
      (.backupMeta backupInfo),
    .written cfg.backupBucketName (collectionMetaPath cfg.backupRootPath backupInfo.name)
      (.collectionMeta backupInfo),
    .written cfg.backupBucketName (partitionMetaPath cfg.backupRootPath backupInfo.name)
      (.partitionMeta backupInfo),
    .written cfg.backupBucketName (segmentMetaPath cfg.backupRootPath backupInfo.name)
      (.segmentMeta backupInfo),
    .written cfg.backupBucketName (fullMetaPath cfg.backupRootPath backupInfo.name)
      (.fullMeta backupInfo),
    .written cfg.backupBucketName (channelCPMetaPath cfg.backupRootPath backupInfo.name)
      (.channelCPMeta collectionPositions)]

/-- **What the manifest holds**: when the channel positions of the backup can be taken and the
object store accepts every write, `writeBackupInfoMeta` writes the full meta the MetaManager
joins for the backup into the five manifest objects and its channel positions into the sixth,
under the backup's name, and changes nothing else. -/
theorem writeBackupInfoMeta_writes {s : Setting} (ctx : Ctx) (id : String) (m : MetaManager)
    (l : List Event) {collectionPositions : List (String × List ChannelPosition)}
    (hpos : collectionPositionsOf ((m.getFullMeta id).getD {}).collectionBackups =
      some collectionPositions)
    (haccept : ∀ t c bucket path, s.env.write t c bucket path = none) :
    Triple (fun w => w.meta = m ∧ w.log = l) (writeBackupInfoMeta ctx id)
      (fun r w => r = none ∧ w.meta = m ∧
        w.log = l ++ manifestEvents s.cfg ((m.getFullMeta id).getD {}) collectionPositions) s := by
  rintro ⟨m, c, l, cp, dp⟩ ⟨rfl, rfl⟩
  simp [writeBackupInfoMeta, hpos, write, haccept, manifestEvents, World.tick, World.appendLog]

/-! ### The channel positions -/

/-- A channel name holding `_` has a physical channel. -/
theorem physicalChannel_isSome {vCh : String} (h : '_' ∈ vCh.data) :
    (physicalChannel vCh).isSome := by
  have hlen := Go.two_le_length_splitChars h
  unfold physicalChannel Go.split
  rcases hs : Go.splitChars '_' vCh.data with _ | ⟨p0, _ | ⟨p1, rest⟩⟩ <;> rw [hs] at hlen
  · simp at hlen
  · simp at hlen
  · rfl

/-- The channel positions of a collection: each checkpoint at the physical channel of its
virtual channel, for names that hold `_`. -/
def CollectionBackupInfo.channelPositions (c : CollectionBackupInfo) : List ChannelPosition :=
  c.channelCheckpoints.map fun (vCh, position) =>
    { name := (physicalChannel vCh).getD "", position := position }

theorem mapM_eq_some_map {α β : Type} {f : α → Option β} {g : α → β} :
    ∀ {l : List α}, (∀ a ∈ l, f a = some (g a)) → l.mapM f = some (l.map g)
  | [], _ => rfl
  | a :: l, h => by
    rw [List.mapM_cons, h a (List.mem_cons_self _ _),
      mapM_eq_some_map fun x hx => h x (List.mem_cons_of_mem _ hx)]
    rfl

/-- Of collections with pairwise distinct names, each gets its own entry, in order, holding
all its positions: no upsert finds a key already there. -/
theorem collectionPositionsOf_eq {cs : List CollectionBackupInfo}
    (hnames : (cs.map CollectionBackupInfo.collectionName).Nodup)
    (hchannels : ∀ c ∈ cs, ∀ vp ∈ c.channelCheckpoints, '_' ∈ vp.1.data) :
    collectionPositionsOf cs = some (cs.map fun c => (c.collectionName, c.channelPositions)) := by
  unfold collectionPositionsOf
  have hacc : ∀ e ∈ ([] : List (String × List ChannelPosition)), ∀ c ∈ cs,
      e.1 ≠ c.collectionName := by simp
  rw [← List.nil_append (cs.map _)]
  generalize ([] : List (String × List ChannelPosition)) = acc at hacc ⊢
  induction cs generalizing acc with
  | nil => simp
  | cons c cs ih =>
    rw [List.map_cons, List.nodup_cons] at hnames
    have hcps : c.channelCheckpoints.mapM (fun (vCh, position) => (physicalChannel vCh).map
        fun pCh => ({ name := pCh, position := position } : ChannelPosition)) =
        some c.channelPositions := mapM_eq_some_map fun ⟨vCh, position⟩ hvp => by
      obtain ⟨pCh, hp⟩ := Option.isSome_iff_exists.1
        (physicalChannel_isSome (hchannels c (List.mem_cons_self _ _) _ hvp))
      simp [hp]
    rw [List.foldlM_cons, hcps]
    simp only [Option.pure_def, Option.bind_eq_bind, Option.some_bind] at ih ⊢
    rw [upsert_of_forall_ne _ fun e he => hacc e he c (List.mem_cons_self _ _), ih hnames.2
      (fun c' hc' => hchannels c' (List.mem_cons_of_mem _ hc')), List.map_cons,
      List.append_assoc, List.singleton_append]
    intro e he c' hc'
    rcases List.mem_append.1 he with he | he
    · exact hacc e he c' (List.mem_cons_of_mem _ hc')
    · rw [List.mem_singleton.1 he]
      exact fun h => hnames.1 (List.mem_map.2 ⟨c', hc', h.symm⟩)

/-- **Collections of distinct names keep their checkpoints**: when the collections of a backup
have pairwise distinct names – the key spec §4.E gives `channel_cp_meta.json` – and every
channel name holds `_`, `writeBackupInfoMeta` writes under each collection's name each of its
checkpoints at the physical channel of its virtual channel; no collection's entry is dropped or
overwritten. -/
theorem writeBackupInfoMeta_channelPositions {s : Setting} (ctx : Ctx) (id : String)
    (m : MetaManager) (l : List Event)
    (hnames : (((m.getFullMeta id).getD {}).collectionBackups.map
      CollectionBackupInfo.collectionName).Nodup)
    (hchannels : ∀ c ∈ ((m.getFullMeta id).getD {}).collectionBackups,
      ∀ vp ∈ c.channelCheckpoints, '_' ∈ vp.1.data)
    (haccept : ∀ t c bucket path, s.env.write t c bucket path = none) :
    Triple (fun w => w.meta = m ∧ w.log = l) (writeBackupInfoMeta ctx id)
      (fun r w => r = none ∧ w.meta = m ∧
        w.log = l ++ manifestEvents s.cfg ((m.getFullMeta id).getD {})
          (((m.getFullMeta id).getD {}).collectionBackups.map fun c =>
            (c.collectionName, c.channelPositions))) s :=
  writeBackupInfoMeta_writes ctx id m l (collectionPositionsOf_eq hnames hchannels) haccept

/-- A backup `daily` of collection `coll` of database `default` (id `12`) and collection `coll2`
of database `db2` (id `13`), each with one channel checkpoint. -/
def twoNamesMeta : MetaManager :=
  ((MetaManager.empty.addBackup { id := "r1", name := "daily" }).addCollection
    { id := "r1", collectionId := 12, dbName := "default", collectionName := "coll",
      channelCheckpoints := [("by-dev-rootcoord-dml_0_12v0", "cp12")] }).addCollection
    { id := "r1", collectionId := 13, dbName := "db2", collectionName := "coll2",
      channelCheckpoints := [("by-dev-rootcoord-dml_1_13v0", "cp13")] }

/-- Both collections keep their checkpoint, each at its physical channel. -/
theorem writeBackupInfoMeta_channelPositions_twoNames :
    (((twoNamesMeta.getFullMeta "r1").getD {}).collectionBackups.map
      CollectionBackupInfo.collectionName).Nodup ∧
    (∀ c ∈ ((twoNamesMeta.getFullMeta "r1").getD {}).collectionBackups,
      ∀ vp ∈ c.channelCheckpoints, '_' ∈ vp.1.data) ∧
    ((twoNamesMeta.getFullMeta "r1").getD {}).collectionBackups.map
      (fun c => (c.collectionName, c.channelPositions)) =
      [("coll", [{ name := "by-dev-rootcoord-dml_0", position := "cp12" }]),
       ("coll2", [{ name := "by-dev-rootcoord-dml_1", position := "cp13" }])] ∧
    Triple (fun w => w.meta = twoNamesMeta ∧ w.log = []) (writeBackupInfoMeta .engine "r1")
      (fun r w => r = none ∧ w.meta = twoNamesMeta ∧
        w.log = [] ++ manifestEvents dailyConfig ((twoNamesMeta.getFullMeta "r1").getD {})
          (((twoNamesMeta.getFullMeta "r1").getD {}).collectionBackups.map fun c =>
            (c.collectionName, c.channelPositions))) ⟨dailyConfig, Env.nominal, none⟩ :=
  have hnames : (((twoNamesMeta.getFullMeta "r1").getD {}).collectionBackups.map
      CollectionBackupInfo.collectionName).Nodup := by decide
  have hchannels : ∀ c ∈ ((twoNamesMeta.getFullMeta "r1").getD {}).collectionBackups,
      ∀ vp ∈ c.channelCheckpoints, '_' ∈ vp.1.data := by decide
  ⟨hnames, hchannels, by decide, writeBackupInfoMeta_channelPositions .engine "r1" twoNamesMeta []
    hnames hchannels fun _ _ _ _ => rfl⟩

end MilvusBackup

namespace MilvusBackup

/-! ### Runs on a fixed Milvus -/

/-- A Milvus with one collection `coll` (id `12`) in database `default`, whose partition `2`
holds segment `7`, with one insert binlog of `10` bytes; and segment `8` of the same partition,
listed by Milvus but with nothing under its insert directory. Every call succeeds, and only
`backup/daily` is missing from the backup bucket. -/
def twoSegmentEnv : Env :=
  { Env.nominal with
    exist := fun _ _ _ path => (path ≠ "backup/daily", none)
    listDatabases := fun _ _ => (["default"], none)
    listCollections := fun _ _ _ => (["coll"], none)
    describeCollection := fun _ _ _ _ => ({ id := 12, name := "coll" }, none)
    showPartitions := fun _ _ _ _ => ([{ id := 2, name := "_default" }], none)
    getPersistentSegmentInfo := fun _ _ _ _ =>
      ([{ id := 7, collectionID := 12, parititionID := 2, numRows := 5 },
        { id := 8, collectionID := 12, parititionID := 2, numRows := 5 }], none)
    flushV2 := fun _ _ _ _ => ({ flushedSegmentIDs := [7, 8] }, none)
    listWithPrefix := fun _ _ _ path =>
      if path = "files/insert_log/12/2/7/" then ([("files/insert_log/12/2/7/100/", 0)], none)
      else if path = "files/insert_log/12/2/7/100/" then
        ([("files/insert_log/12/2/7/100/1", 10)], none)
      else ([], none) }

@[inherit_doc twoSegmentEnv]
def oneSegmentEnv : Env :=
  { twoSegmentEnv with
    getPersistentSegmentInfo := fun _ _ _ _ =>
      ([{ id := 7, collectionID := 12, parititionID := 2, numRows := 5 }], none)
    flushV2 := fun _ _ _ _ => ({ flushedSegmentIDs := [7] }, none) }

/-- The request for a backup `daily` of every collection, and the task `CreateBackup` records
for it. -/
def dailyRequest : CreateBackupRequest := { requestId := "r1", backupName := "daily" }

@[inherit_doc dailyRequest]
def dailyTask : BackupInfo := { id := "r1", name := "daily" }

/-- A backup context whose MetaManager holds the new task `dailyTask`. -/
def dailyWorld : World := { meta := MetaManager.empty.addBackup dailyTask }

/-- The object store refuses every write. -/
def failingWritesEnv : Env := { oneSegmentEnv with write := fun _ _ _ _ => some "write failed" }

/-- Every write of the manifest fails, and the backup is recorded as successful all the same:
`executeCreateBackup` returns `nil` and no object has been written. -/
theorem executeCreateBackup_success_without_manifest :
    (executeCreateBackup .request dailyRequest dailyTask ⟨dailyConfig, failingWritesEnv, none⟩
      dailyWorld).1 = none ∧
    ((executeCreateBackup .request dailyRequest dailyTask ⟨dailyConfig, failingWritesEnv, none⟩
      dailyWorld).2.meta.getBackup "r1").map BackupInfo.stateCode = some .backupSuccess ∧
    ((executeCreateBackup .request dailyRequest dailyTask ⟨dailyConfig, failingWritesEnv, none⟩
      dailyWorld).2.log.filter Event.isWritten) = [] := by
  decide

/-- Segment `8` has nothing to fill, so `copySegments` returns its error with the copy of
segment `7` submitted and never waited for: `executeCreateBackup` fails with the copy still
pending. -/
theorem executeCreateBackup_returns_with_pending_copy :
    (executeCreateBackup .request dailyRequest dailyTask ⟨dailyConfig, twoSegmentEnv, none⟩
      dailyWorld).1 = some (emptyInsertPathMessage "files/insert_log/12/2/8/") ∧
    (executeCreateBackup .request dailyRequest dailyTask ⟨dailyConfig, twoSegmentEnv, none⟩
      dailyWorld).2.copyPool.pending = [(0, 7)] := by
  decide

/-- `oneSegmentEnv`, where the flush also hands back segment `8` of partition `3`, a partition
`ShowPartitions` did not list – one created after it, say. -/
def newPartitionEnv : Env :=
  { oneSegmentEnv with
    getPersistentSegmentInfo := fun _ _ _ _ =>
      ([{ id := 7, collectionID := 12, parititionID := 2, numRows := 5 },
        { id := 8, collectionID := 12, parititionID := 3, numRows := 5 }], none)
    flushV2 := fun _ _ _ _ => ({ flushedSegmentIDs := [7, 8] }, none) }

/-- A segment of a partition `ShowPartitions` did not list is recorded under no partition:
prepare returns `nil`, records segment `8`, and the only partition record of the collection holds
segment `7` alone. -/
theorem backupCollectionPrepare_segment_without_partition :
    (backupCollectionPrepare .engine dailyTask ⟨"default", "coll"⟩ false
      ⟨dailyConfig, newPartitionEnv, none⟩ dailyWorld).1 = none ∧
    ((backupCollectionPrepare .engine dailyTask ⟨"default", "coll"⟩ false
      ⟨dailyConfig, newPartitionEnv, none⟩ dailyWorld).2.meta.getSegment 8).isSome ∧
    ((backupCollectionPrepare .engine dailyTask ⟨"default", "coll"⟩ false
      ⟨dailyConfig, newPartitionEnv, none⟩ dailyWorld).2.meta.getPartitions 12).map
      (fun p => (p.partitionId, p.segmentBackups.map SegmentBackupInfo.segmentId)) = [(2, [7])] := by
  decide

/-- A backup `daily` whose collection `coll` of database `default` (id `12`) and collection `coll`
of database `db2` (id `13`) each have one channel checkpoint. -/
def twoDatabasesWorld : World :=
  { meta := ((MetaManager.empty.addBackup { id := "r1", name := "daily" }).addCollection
      { id := "r1", collectionId := 12, dbName := "default", collectionName := "coll",
        channelCheckpoints := [("by-dev-rootcoord-dml_0_12v0", "cp12")] }).addCollection
      { id := "r1", collectionId := 13, dbName := "db2", collectionName := "coll",
        channelCheckpoints := [("by-dev-rootcoord-dml_1_13v0", "cp13")] } }

/-- The channel positions are keyed by collection name alone: of two collections named `coll`
in two databases, the manifest keeps the checkpoint of the second only. -/
theorem writeBackupInfoMeta_drops_same_name :
    (writeBackupInfoMeta .engine "r1" ⟨dailyConfig, Env.nominal, none⟩ twoDatabasesWorld).2.log.getLast? =
      some (.written "backup" (channelCPMetaPath "backup" "daily")
        (.channelCPMeta [("coll", [{ name := "by-dev-rootcoord-dml_1", position := "cp13" }])])) := by
  decide

end MilvusBackup
