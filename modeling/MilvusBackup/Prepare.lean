import MilvusBackup.Fill

/-!
# Choosing the collections, and preparing one

`parseBackupCollections` turns a request into the list of collections to back up, and
`backupCollectionPrepare` records one of them in the MetaManager: the collection, its
partitions, and the segments a flush hands back, none of them filled yet.

Every statement about what prepare records is put in terms of what Milvus answers at the ticks
of its calls, so that it is a statement about the program's inputs.

* Without `force`, the segments it records are those of the snapshots taken before and after a
  flush that the flush names: one segment per named id either snapshot holds, the first of the
  snapshot after the flush when it holds the id (`MilvusBackup.unfilledSegments_flushed`).
* The checkpoints it records are those of the flush, and the backup timestamp the largest
  checkpoint timestamp, in whatever order the checkpoint map is walked
  (`MilvusBackup.backupCollectionPrepare_checkpoints`).
* The indexes it records are those `DescribeIndex` answers for the fields of the schema, each
  name once, with the field of its first answer
  (`MilvusBackup.backupCollectionPrepare_indexInfos`).

The three are read off one spec of a successful prepare
(`MilvusBackup.backupCollectionPrepare_records`), which follows the record of the described
collection from the write that adds it to the last update.

Two things about what prepare records matter downstream.

* The records carry no backup id below the collection: a partition is keyed by
  `(collection id, partition id)` and a segment by its id, so a later backup of the same
  collection writes over the records of an earlier one.
* The sizes it records are not sums of binlog sizes. A partition's size is summed over the
  segments it has just created, whose size is still `0`, and the collection's size over
  `partitionBackupInfos`, a list nothing appends to; both are `0`
  (`MilvusBackup.backupCollectionPrepare_sizes`). A reader sees sums all the same: `GetFullMeta`
  adds them up.
-/

namespace MilvusBackup

open BackupM

/-! ### The collections of a request -/

/-- The fields of `backuppb.CreateBackupRequest` the create path reads; `dbCollections` is the
string `utils.GetCreateDBCollections` returns for it, `""` when it is unset. -/
structure CreateBackupRequest where
  requestId : String := ""
  backupName : String := ""
  collectionNames : List String := []
  dbCollections : String := ""
  async : Bool := false
  force : Bool := false
  metaOnly : Bool := false
  deriving DecidableEq, Repr

/-- The error of a requested collection that does not exist. -/
def collectionNotExistMessage (dbName collectionName : String) : GoError :=
  "request backup collection does not exist: " ++ dbName ++ "." ++ collectionName

/-- The loop of `parseBackupCollections` over the entries of `dbCollections`: a database with an
empty list stands for all its collections. -/
def dbCollectionsLoop :
    List (String × List String) → List CollectionStruct →
      BackupM (Except GoError (List CollectionStruct))
  | [], acc => pure (.ok acc)
  | (db, collections) :: rest, acc => do
    if collections.length = 0 then
      let (collections, err) ← listCollections .engine db
      if let some e := err then return .error e
      dbCollectionsLoop rest (acc ++ collections.map fun coll => ⟨db, coll⟩)
    else
      dbCollectionsLoop rest (acc ++ collections.map fun coll => ⟨db, coll⟩)

/-- The loop of `parseBackupCollections` over all databases. -/
def allDatabasesLoop :
    List String → List CollectionStruct → BackupM (Except GoError (List CollectionStruct))
  | [], acc => pure (.ok acc)
  | db :: rest, acc => do
    let (collections, err) ← listCollections .engine db
    if let some e := err then return .error e
    allDatabasesLoop rest (acc ++ collections.map fun coll => ⟨db, coll⟩)

/-- The database and the name a requested `db.coll` or `coll` stands for. -/
def splitCollectionName (collectionName : String) : String × String :=
  if Go.contains collectionName "." then
    let splits := Go.split collectionName '.'
    (splits.getD 0 "", splits.getD 1 "")
  else ("default", collectionName)

/-- The loop of `parseBackupCollections` over the requested collection names: each must exist. -/
def collectionNamesLoop :
    List String → List CollectionStruct → BackupM (Except GoError (List CollectionStruct))
  | [], acc => pure (.ok acc)
  | name :: rest, acc => do
    let (dbName, collectionName) := splitCollectionName name
    let (exist, err) ← hasCollection .engine dbName collectionName
    if let some e := err then return .error e
    if !exist then return .error (collectionNotExistMessage dbName collectionName)
    collectionNamesLoop rest (acc ++ [⟨dbName, collectionName⟩])

/-- `parseBackupCollections(request)`. -/
def parseBackupCollections (request : CreateBackupRequest) :
    BackupM (Except GoError (List CollectionStruct)) := do
  let dbCollectionsStr := request.dbCollections
  if dbCollectionsStr ≠ "" then
    let s ← setting
    match s.env.unmarshalDbCollections dbCollectionsStr with
    | .error e => return .error e
    | .ok dbCollections => return ← dbCollectionsLoop dbCollections []
  if request.collectionNames.length = 0 then
    let (dbs, err) ← listDatabases .engine
    if let some e := err then return .error e
    allDatabasesLoop dbs []
  else
    collectionNamesLoop request.collectionNames []

/-! ### The collection record -/

/-- The schema snapshot of a described collection. -/
def EntityField.toFieldSchema (field : EntityField) : FieldSchema :=
  { fieldID := field.id, name := field.name, isPrimaryKey := field.primaryKey,
    description := field.description, autoID := field.autoID, dataType := field.dataType,
    typeParams := field.typeParams, indexParams := field.indexParams,
    isDynamic := field.isDynamic, isPartitionKey := field.isPartitionKey,
    elementType := field.elementType }

@[inherit_doc EntityField.toFieldSchema]
def EntitySchema.toCollectionSchema (schema : EntitySchema) : CollectionSchema :=
  { name := schema.collectionName, description := schema.description, autoID := schema.autoID,
    fields := schema.fields.map EntityField.toFieldSchema,
    enableDynamicField := schema.enableDynamicField }

/-- The `DescribeIndex` errors that mean the field has no index. -/
def isIndexNotFound (err : GoError) : Bool :=
  Go.contains err "index not found" || Go.hasPrefix err "index doesn't exist"

/-- The indexes of one field appended to `indexInfos`, skipping any whose name `indexDict`
already holds: the first index of a name wins. -/
def addFieldIndexes (field : EntityField) (fieldIndex : List EntityIndex)
    (indexInfos : List IndexInfo) : List IndexInfo :=
  fieldIndex.foldl (fun infos index =>
    if infos.any (·.indexName = index.name) then infos
    else infos ++ [{ fieldName := field.name, indexName := index.name,
                     indexType := index.indexType, params := index.params }]) indexInfos

/-- The index loop of `backupCollectionPrepare`, over the fields of the schema. -/
def describeIndexesLoop (db collectionName : String) :
    List EntityField → List IndexInfo → BackupM (Except GoError (List IndexInfo))
  | [], indexInfos => pure (.ok indexInfos)
  | field :: rest, indexInfos => do
    let (fieldIndex, err) ← describeIndex .engine db collectionName field.name
    match err with
    | some e =>
      if isIndexNotFound e then describeIndexesLoop db collectionName rest indexInfos
      else pure (.error e)
    | none => describeIndexesLoop db collectionName rest (addFieldIndexes field fieldIndex indexInfos)

/-! ### Load states -/

/-- A Go `map[string]string` assignment: the value of `key` replaced, or the key added. -/
def mapSet (m : List (String × String)) (key value : String) : List (String × String) :=
  upsert Prod.fst (key, value) m

/-- A Go `map[string]string` lookup, `""` for a missing key. -/
def mapGet (m : List (String × String)) (key : String) : String :=
  ((m.find? (·.1 = key)).map Prod.snd).getD ""

/-- The load state a loading progress stands for. -/
def loadStateOf (loadProgress : Int) : String :=
  if loadProgress = 0 then loadStateNotLoad
  else if loadProgress = 100 then loadStateLoaded
  else loadStateLoading

/-- The loop over the partitions of a collection being loaded: each partition's own progress. -/
def partitionLoadStatesLoop (ctx : Ctx) (db collectionName : String) :
    List EntityPartition → List (String × String) →
      BackupM (Except GoError (List (String × String)))
  | [], states => pure (.ok states)
  | partition :: rest, states => do
    let (loadProgress, err) ← getLoadingProgress ctx db collectionName [partition.name]
    if let some e := err then return .error e
    partitionLoadStatesLoop ctx db collectionName rest
      (mapSet states partition.name (loadStateOf loadProgress))

/-- The load state of the collection and of each partition, from the collection's progress;
only a collection being loaded asks for the progress of each partition. -/
def loadStates (ctx : Ctx) (db collectionName : String) (partitions : List EntityPartition)
    (collectionLoadProgress : Int) : BackupM (Except GoError (String × List (String × String))) := do
  if collectionLoadProgress = 0 then
    return .ok (loadStateNotLoad,
      partitions.foldl (fun m p => mapSet m p.name loadStateNotLoad) [])
  else if collectionLoadProgress = 100 then
    return .ok (loadStateLoaded,
      partitions.foldl (fun m p => mapSet m p.name loadStateLoaded) [])
  else
    match ← partitionLoadStatesLoop ctx db collectionName partitions [] with
    | .error e => return .error e
    | .ok states => return .ok (loadStateLoading, states)

/-! ### The segments of a flush -/

/-- The channel checkpoints of a flush and the largest checkpoint timestamp, as the loop over
`channelCPs` computes them (a timestamp of `0` so far counts as none). -/
def channelCheckpointsOf (channelCPs : GoMap String MsgPosition) : List (String × String) × Nat :=
  channelCPs.entries.foldl (fun (cps, maxTs) (vch, checkpoint) =>
    (mapSet cps vch checkpoint.base64,
      if maxTs = 0 then checkpoint.timestamp
      else if maxTs < checkpoint.timestamp then checkpoint.timestamp else maxTs)) ([], 0)

/-- A loop over a segment snapshot: a segment whose id is still in `segmentDict` is taken and
its id deleted from it. -/
def takeFlushed (segments : List EntitySegment) (unfilled : List EntitySegment)
    (segmentDict : List Int) : List EntitySegment × List Int :=
  segments.foldl (fun (unfilled, dict) seg =>
    if seg.id ∈ dict then (unfilled ++ [seg], dict.filter (· ≠ seg.id)) else (unfilled, dict))
    (unfilled, segmentDict)

/-- `uint64(timeOfSeal)`. -/
def toUint64 (i : Int) : Nat := (i % 2 ^ 64).toNat

/-- The segments prepare records: without `force`, those of the two snapshots around a flush
that the flush names, after recording the flush's checkpoints on the collection; with `force`,
the current snapshot. -/
def unfilledSegments (ctx : Ctx) (collectionBackup : CollectionBackupInfo) (force : Bool) :
    BackupM (Except GoError (List EntitySegment)) := do
  let db := collectionBackup.dbName
  let name := collectionBackup.collectionName
  if !force then
    let (segmentEntitiesBeforeFlush, err) ← getPersistentSegmentInfo ctx db name
    if let some e := err then return .error e
    let (flush, err) ← flushV2 ctx db name
    if let some e := err then return .error e
    let (channelCheckpoints, maxChannelBackupTimeStamp) := channelCheckpointsOf flush.channelCPs
    modifyMeta (·.updateCollection collectionBackup.id collectionBackup.collectionId
      [.setCollectionChannelCheckpoints channelCheckpoints,
       .setCollectionBackupTimestamp maxChannelBackupTimeStamp,
       .setCollectionBackupPhysicalTimestamp (toUint64 flush.timeOfSeal)])
    let flushSegmentIDs := flush.newSealedSegmentIDs ++ flush.flushedSegmentIDs
    let (segmentEntitiesAfterFlush, err) ← getPersistentSegmentInfo ctx db name
    if let some e := err then return .error e
    let (unfilled, segmentDict) := takeFlushed segmentEntitiesAfterFlush [] flushSegmentIDs
    let (unfilled, _) := takeFlushed segmentEntitiesBeforeFlush unfilled segmentDict
    return .ok unfilled
  else
    let (segmentEntitiesBeforeFlush, err) ← getPersistentSegmentInfo ctx db name
    if let some e := err then return .error e
    return .ok segmentEntitiesBeforeFlush

/-! ### Prepare -/

/-- The record of an unfilled segment. -/
def EntitySegment.toSegmentBackupInfo (segment : EntitySegment) : SegmentBackupInfo :=
  { segmentId := segment.id, collectionId := segment.collectionID,
    partitionId := segment.parititionID, numOfRows := segment.numRows }

/-- `partSegInfoMap[partitionId]`: the records of the unfilled segments of a partition. -/
def partSegInfos (unfilled : List EntitySegment) (partitionId : Int) : List SegmentBackupInfo :=
  (unfilled.filter (·.parititionID = partitionId)).map EntitySegment.toSegmentBackupInfo

/-- The record of a partition: its size is summed, in `int64`, over
`partSegInfoMap[partition.ID]`. -/
def partitionBackupInfoOf (collectionId : Int) (unfilled : List EntitySegment)
    (partitionLoadStates : List (String × String)) (partition : EntityPartition) :
    PartitionBackupInfo :=
  let partitionSegments := partSegInfos unfilled partition.id
  { partitionId := partition.id, partitionName := partition.name, collectionId := collectionId,
    segmentBackups := partitionSegments,
    size := Go.sumInt64 (partitionSegments.map SegmentBackupInfo.size),
    loadState := mapGet partitionLoadStates partition.name }

/-- `backupCollectionPrepare(ctx, backupInfo, collection, force)`. -/
def backupCollectionPrepare (ctx : Ctx) (backupInfo : BackupInfo) (collection : CollectionStruct)
    (force : Bool) : BackupM (Option GoError) := do
  let (completeCollection, err) ← describeCollection .engine collection.db collection.collectionName
  if let some e := err then return some e
  let schema := completeCollection.schema.toCollectionSchema
  let indexInfos ← describeIndexesLoop collection.db completeCollection.name
    completeCollection.schema.fields []
  match indexInfos with
  | .error e => return some e
  | .ok indexInfos =>
  let startTime ← timeNow
  let collectionBackup : CollectionBackupInfo :=
    { id := backupInfo.id, stateCode := .backupInitial, startTime := startTime,
      collectionId := completeCollection.id, dbName := collection.db,
      collectionName := completeCollection.name, schema := schema,
      shardsNum := completeCollection.shardNum,
      consistencyLevel := completeCollection.consistencyLevel,
      hasIndex := indexInfos.length > 0, indexInfos := indexInfos }
  modifyMeta (·.addCollection collectionBackup)
  let partitionBackupInfos : List PartitionBackupInfo := []
  let (partitions, err) ← showPartitions .engine collectionBackup.dbName
    collectionBackup.collectionName
  if let some e := err then return some e
  let (collectionLoadProgress, err) ← getLoadingProgress ctx collectionBackup.dbName
    collectionBackup.collectionName []
  if let some e := err then return some e
  match ← loadStates ctx collectionBackup.dbName collectionBackup.collectionName partitions
      collectionLoadProgress with
  | .error e => return some e
  | .ok (collectionLoadState, partitionLoadStates) =>
  match ← unfilledSegments ctx collectionBackup force with
  | .error e => return some e
  | .ok unfilled =>
  unfilled.forM fun segment => modifyMeta (·.addSegment segment.toSegmentBackupInfo)
  partitions.forM fun partition => modifyMeta (·.addPartition
    (partitionBackupInfoOf collectionBackup.collectionId unfilled partitionLoadStates partition))
  modifyMeta (·.updateCollection collectionBackup.id collectionBackup.collectionId
    [.setCollectionLoadState collectionLoadState])
  let collectionBackupSize := Go.sumInt64 (partitionBackupInfos.map PartitionBackupInfo.size)
  modifyMeta (·.updateCollection collectionBackup.id collectionBackup.collectionId
    [.setCollectionSize collectionBackupSize])
  return none

end MilvusBackup

namespace MilvusBackup

/-! ### The checkpoints of a flush -/

/-- The timestamp step of the loop is `max`: a `0` so far is below every timestamp. -/
theorem maxTimestamp_step (maxTs ts : Nat) :
    (if maxTs = 0 then ts else if maxTs < ts then ts else maxTs) = max maxTs ts := by
  split_ifs <;> omega

/-- A key not yet in a map is appended. -/
theorem mapSet_of_not_mem {m : List (String × String)} {key : String}
    (h : key ∉ m.map Prod.fst) (value : String) : mapSet m key value = m ++ [(key, value)] := by
  unfold mapSet upsert
  rw [if_neg]
  intro hany
  obtain ⟨y, hy, hk⟩ := List.any_eq_true.1 hany
  exact h (List.mem_map.2 ⟨y, hy, of_decide_eq_true hk⟩)

/-- The loop over the checkpoints, from any state: each channel is appended with its encoded
position, and the timestamp is the maximum of the state's and the channels'. -/
theorem channelCheckpointsOf_foldl (entries : List (String × MsgPosition))
    (cps : List (String × String)) (maxTs : Nat) (hnd : (entries.map Prod.fst).Nodup)
    (hnew : ∀ k ∈ entries.map Prod.fst, k ∉ cps.map Prod.fst) :
    entries.foldl (fun (cps, maxTs) (vch, checkpoint) =>
      (mapSet cps vch checkpoint.base64,
        if maxTs = 0 then checkpoint.timestamp
        else if maxTs < checkpoint.timestamp then checkpoint.timestamp else maxTs)) (cps, maxTs) =
      (cps ++ entries.map (fun e => (e.1, e.2.base64)),
        (entries.map (·.2.timestamp)).foldl max maxTs) := by
  induction entries generalizing cps maxTs with
  | nil => simp
  | cons e entries ih =>
    obtain ⟨he, hnd⟩ := List.nodup_cons.1 hnd
    rw [List.foldl_cons]
    dsimp only
    rw [maxTimestamp_step, mapSet_of_not_mem (hnew _ (List.mem_cons_self _ _)),
      ih _ _ hnd]
    · simp
    · intro k hk hk'
      simp only [List.map_append, List.map_cons, List.map_nil, List.mem_append,
        List.mem_singleton] at hk'
      rcases hk' with hk' | rfl
      · exact hnew k (List.mem_cons_of_mem _ hk) hk'
      · exact he hk

/-- The loop over the checkpoint map appends each channel with its encoded position, in the
map's order, and takes as timestamp the largest checkpoint timestamp, `0` for an empty map. -/
theorem channelCheckpointsOf_eq (channelCPs : GoMap String MsgPosition) :
    channelCheckpointsOf channelCPs = (channelCPs.entries.map fun e => (e.1, e.2.base64),
      (channelCPs.entries.map (·.2.timestamp)).max?.getD 0) := by
  rw [channelCheckpointsOf, channelCheckpointsOf_foldl _ _ _ channelCPs.nodup (by simp)]
  simp [List.foldl_max, Function.comp_def]

/-! ### The indexes of a collection -/

/-- The record of index `index` of field `field`. -/
def IndexInfo.ofField (field : EntityField) (index : EntityIndex) : IndexInfo :=
  { fieldName := field.name, indexName := index.name, indexType := index.indexType,
    params := index.params }

/-- What the index loop keeps of a sequence of `(field, index)` answers: each index name once,
every name answered, each with the field, type and parameters of its first answer. -/
structure IndexSelection (answers : List (EntityField × EntityIndex)) (indexInfos : List IndexInfo) :
    Prop where
  nodup : (indexInfos.map (·.indexName)).Nodup
  mem_iff : ∀ x, x ∈ indexInfos.map (·.indexName) ↔ x ∈ answers.map (·.2.name)
  first : ∀ info ∈ indexInfos,
    (answers.find? (·.2.name = info.indexName)).map (fun a => IndexInfo.ofField a.1 a.2) = some info

/-- One index more: it is recorded unless its name already is. -/
theorem IndexSelection.step {answers : List (EntityField × EntityIndex)} {infos : List IndexInfo}
    (h : IndexSelection answers infos) (field : EntityField) (index : EntityIndex) :
    IndexSelection (answers ++ [(field, index)])
      (if infos.any (·.indexName = index.name) then infos
       else infos ++ [{ fieldName := field.name, indexName := index.name,
                        indexType := index.indexType, params := index.params }]) := by
  have hold : ∀ info ∈ infos, ((answers ++ [(field, index)]).find? (·.2.name = info.indexName)).map
      (fun a => IndexInfo.ofField a.1 a.2) = some info := fun info hinfo => by
    have hfirst := h.first info hinfo
    obtain ⟨a, ha, -⟩ := Option.map_eq_some'.1 hfirst
    rw [ha] at hfirst
    rw [List.find?_append, ha]
    exact hfirst
  split
  · next hany =>
    obtain ⟨j, hj, hjn⟩ := List.any_eq_true.1 hany
    have hi := (h.mem_iff _).1 (List.mem_map.2 ⟨j, hj, of_decide_eq_true hjn⟩)
    refine ⟨h.nodup, fun x => ?_, hold⟩
    rw [h.mem_iff, List.map_append, List.mem_append, List.map_singleton, List.mem_singleton]
    exact ⟨.inl, fun h' => h'.elim id (· ▸ hi)⟩
  · next hany =>
    have hi : index.name ∉ infos.map (·.indexName) := fun hi => hany <| by
      obtain ⟨j, hj, hjn⟩ := List.mem_map.1 hi
      exact List.any_eq_true.2 ⟨j, hj, decide_eq_true hjn⟩
    have hnone : answers.find? (·.2.name = index.name) = none :=
      List.find?_eq_none.2 fun a ha han =>
        hi ((h.mem_iff _).2 (List.mem_map.2 ⟨a, ha, of_decide_eq_true han⟩))
    refine ⟨?_, fun x => ?_, fun info hinfo => ?_⟩
    · rw [List.map_append, List.map_singleton]
      exact List.nodup_append.2 ⟨h.nodup, List.nodup_singleton _,
        fun x hx hx' => by rw [List.mem_singleton.1 hx'] at hx; exact hi hx⟩
    · simp only [List.map_append, List.mem_append, h.mem_iff, List.map_singleton,
        List.mem_singleton]
    · rcases List.mem_append.1 hinfo with hinfo | hinfo
      · exact hold info hinfo
      · rw [List.mem_singleton.1 hinfo, List.find?_append, hnone]
        simp [IndexInfo.ofField]

/-- The indexes of one field, one after the other. -/
theorem IndexSelection.addFieldIndexes (field : EntityField) :
    ∀ (fieldIndex : List EntityIndex) {answers : List (EntityField × EntityIndex)}
      {infos : List IndexInfo}, IndexSelection answers infos →
      IndexSelection (answers ++ fieldIndex.map (field, ·)) (addFieldIndexes field fieldIndex infos)
  | [], _, _, h => by simpa [MilvusBackup.addFieldIndexes] using h
  | index :: fieldIndex, answers, infos, h => by
    have := IndexSelection.addFieldIndexes field fieldIndex (h.step field index)
    simpa [MilvusBackup.addFieldIndexes] using this

/-- The fields one after the other. -/
theorem IndexSelection.foldl :
    ∀ (answered : List (EntityField × List EntityIndex)) {answers : List (EntityField × EntityIndex)}
      {infos : List IndexInfo}, IndexSelection answers infos →
      IndexSelection (answers ++ answered.flatMap fun a => a.2.map (a.1, ·))
        (answered.foldl (fun infos a => MilvusBackup.addFieldIndexes a.1 a.2 infos) infos)
  | [], _, _, h => by simpa using h
  | a :: answered, _, _, h => by
    simpa using IndexSelection.foldl answered (h.addFieldIndexes a.1 a.2)

/-- What `DescribeIndex` answers at tick `t` for a field: its indexes, none when the error says
the field has no index, and `none` for another error. -/
def describedIndexes (s : Setting) (t : Nat) (db collectionName : String) (field : EntityField) :
    Option (List EntityIndex) :=
  match s.env.describeIndex t false db collectionName field.name with
  | (fieldIndex, none) => some fieldIndex
  | (_, some e) => if isIndexNotFound e then some [] else none

/-- The answers of `DescribeIndex` for `fields` asked one after the other from tick `t`, each
with its field; `none` if one of them failed. -/
def describedFieldIndexes (s : Setting) (db collectionName : String) :
    Nat → List EntityField → Option (List (EntityField × List EntityIndex))
  | _, [] => some []
  | t, field :: rest => do
    let fieldIndex ← describedIndexes s t db collectionName field
    let answered ← describedFieldIndexes s db collectionName (t + 1) rest
    pure ((field, fieldIndex) :: answered)

/-- The index loop started at tick `t` asks `DescribeIndex` about one field per tick; when it
succeeds, every answer was one, and it folds `addFieldIndexes` over them. -/
theorem describeIndexesLoop_spec (db collectionName : String) (m : MetaManager) (s : Setting) :
    ∀ (fields : List EntityField) (indexInfos : List IndexInfo) (t : Nat),
    Triple (fun w => w.clock = t ∧ w.meta = m) (describeIndexesLoop db collectionName fields indexInfos)
      (fun r w => w.meta = m ∧ ∀ infos, r = .ok infos → w.clock = t + fields.length ∧
        ∃ answered, describedFieldIndexes s db collectionName t fields = some answered ∧
          infos = answered.foldl (fun infos a => addFieldIndexes a.1 a.2 infos) indexInfos) s
  | [], _, t => .pure fun _ ⟨hc, hm⟩ => ⟨hm, fun _ h => ⟨hc, [], rfl, (Except.ok.inj h).symm⟩⟩
  | field :: rest, indexInfos, t => .call_at <| by
    rw [show s.cancelled .engine t = false from rfl]
    rcases h : s.env.describeIndex t false db collectionName field.name with ⟨fieldIndex, _ | e⟩
    · refine (describeIndexesLoop_spec db collectionName m s rest _ (t + 1)).mono (fun _ h => h)
        fun r w ⟨hm, hr⟩ => ⟨hm, fun infos hinfos => ?_⟩
      obtain ⟨hc, answered, ha, hinfos⟩ := hr infos hinfos
      refine ⟨by rw [hc]; simp only [List.length_cons]; omega, (field, fieldIndex) :: answered, ?_,
        hinfos⟩
      simp [describedFieldIndexes, describedIndexes, h, ha]
    · dsimp only
      split
      · next hnf =>
        refine (describeIndexesLoop_spec db collectionName m s rest _ (t + 1)).mono (fun _ h => h)
          fun r w ⟨hm, hr⟩ => ⟨hm, fun infos hinfos => ?_⟩
        obtain ⟨hc, answered, ha, hinfos⟩ := hr infos hinfos
        refine ⟨by rw [hc]; simp only [List.length_cons]; omega, (field, []) :: answered, ?_, hinfos⟩
        simp [describedFieldIndexes, describedIndexes, h, hnf, ha]
      · exact .pure fun _ ⟨_, hm⟩ => ⟨hm, nofun⟩

/-! ### The segments a flush names -/

/-- Without `force`, `unfilledSegments` started at tick `t` asks for the segments before the
flush at `t`, for the flush at `t + 1` and for the segments after it at `t + 2`. When it
succeeds, all three answered without error, it recorded the flush's checkpoints on the
collection record, and it returns what its loop over the segments after the flush, then its loop
over those before, take. -/
theorem unfilledSegments_spec (ctx : Ctx) (collectionBackup : CollectionBackupInfo) (t : Nat)
    (m : MetaManager) (s : Setting) :
    Triple (fun w => w.clock = t ∧ w.meta = m) (unfilledSegments ctx collectionBackup false)
      (fun r w => ∀ unfilled, r = .ok unfilled → ∃ before flush after,
        s.env.getPersistentSegmentInfo t (s.cancelled ctx t) collectionBackup.dbName
          collectionBackup.collectionName = (before, none) ∧
        s.env.flushV2 (t + 1) (s.cancelled ctx (t + 1)) collectionBackup.dbName
          collectionBackup.collectionName = (flush, none) ∧
        s.env.getPersistentSegmentInfo (t + 2) (s.cancelled ctx (t + 2)) collectionBackup.dbName
          collectionBackup.collectionName = (after, none) ∧
        w.clock = t + 3 ∧
        w.meta = m.updateCollection collectionBackup.id collectionBackup.collectionId
          [.setCollectionChannelCheckpoints (channelCheckpointsOf flush.channelCPs).1,
           .setCollectionBackupTimestamp (channelCheckpointsOf flush.channelCPs).2,
           .setCollectionBackupPhysicalTimestamp (toUint64 flush.timeOfSeal)] ∧
        unfilled = (takeFlushed before
          (takeFlushed after [] (flush.newSealedSegmentIDs ++ flush.flushedSegmentIDs)).1
          (takeFlushed after [] (flush.newSealedSegmentIDs ++ flush.flushedSegmentIDs)).2).1) s := by
  unfold unfilledSegments
  simp only [Bool.not_false, ↓reduceIte, BackupM.pure_bind]
  refine .call_at ?_
  rcases h₁ : s.env.getPersistentSegmentInfo t (s.cancelled ctx t) collectionBackup.dbName
    collectionBackup.collectionName with ⟨before, _ | e⟩
  all_goals dsimp only
  swap
  · exact .pure fun _ _ _ h => nomatch h
  refine .call_at ?_
  rcases h₂ : s.env.flushV2 (t + 1) (s.cancelled ctx (t + 1)) collectionBackup.dbName
    collectionBackup.collectionName with ⟨flush, _ | e⟩
  all_goals dsimp only
  swap
  · exact .pure fun _ _ _ h => nomatch h
  refine .modifyMeta_at (.call_at ?_)
  rcases h₃ : s.env.getPersistentSegmentInfo (t + 2) (s.cancelled ctx (t + 2)) collectionBackup.dbName
    collectionBackup.collectionName with ⟨after, _ | e⟩
  all_goals dsimp only
  swap
  · exact .pure fun _ _ _ h => nomatch h
  exact .pure fun w ⟨hc, hm⟩ _ h => ⟨before, flush, after, rfl, rfl, rfl, hc, hm, (Except.ok.inj h).symm⟩

end MilvusBackup

namespace MilvusBackup

open BackupM

/-! ### What prepare writes -/

section Keeps

variable {I : Invariant} {P : Event → Prop} {s : Setting}

theorem dbCollectionsLoop_keeps :
    ∀ (l : List (String × List String)) (acc : List CollectionStruct),
    Keeps I P (dbCollectionsLoop l acc) s
  | [], _ => .pure _
  | _ :: rest, _ => by
    unfold dbCollectionsLoop
    split
    · exact .bind (.call _ _) fun _ => by
        dsimp only
        split; exacts [.pure _, .bind (.pure _) fun _ => dbCollectionsLoop_keeps rest _]
    · exact dbCollectionsLoop_keeps rest _

theorem allDatabasesLoop_keeps :
    ∀ (l : List String) (acc : List CollectionStruct), Keeps I P (allDatabasesLoop l acc) s
  | [], _ => .pure _
  | _ :: rest, _ => .bind (.call _ _) fun _ => by
    dsimp only
    split; exacts [.pure _, .bind (.pure _) fun _ => allDatabasesLoop_keeps rest _]

theorem collectionNamesLoop_keeps :
    ∀ (l : List String) (acc : List CollectionStruct), Keeps I P (collectionNamesLoop l acc) s
  | [], _ => .pure _
  | _ :: rest, _ => .bind (.call _ _) fun _ => by
    dsimp only
    split
    · exact .pure _
    · refine .bind (.pure _) fun _ => ?_
      split; exacts [.pure _, .bind (.pure _) fun _ => collectionNamesLoop_keeps rest _]

/-- Choosing the collections only asks Milvus. -/
theorem parseBackupCollections_keeps (request : CreateBackupRequest) :
    Keeps I P (parseBackupCollections request) s := by
  unfold parseBackupCollections
  dsimp only
  split
  · refine .setting_bind ?_
    split
    · exact .pure _
    · exact .bind (dbCollectionsLoop_keeps _ _) fun _ => .pure _
  · simp only [pure_bind]
    split
    · exact .bind (.call _ _) fun _ => by split; exacts [.pure _, allDatabasesLoop_keeps _ _]
    · exact collectionNamesLoop_keeps _ _

theorem describeIndexesLoop_keeps (db collectionName : String) :
    ∀ (fields : List EntityField) (indexInfos : List IndexInfo),
    Keeps I P (describeIndexesLoop db collectionName fields indexInfos) s
  | [], _ => .pure _
  | _ :: rest, _ => .bind (.call _ _) fun ⟨_, _⟩ => by
    dsimp only
    split
    · split
      · exact describeIndexesLoop_keeps db collectionName rest _
      · exact .pure _
    · exact describeIndexesLoop_keeps db collectionName rest _

theorem partitionLoadStatesLoop_keeps (ctx : Ctx) (db collectionName : String) :
    ∀ (partitions : List EntityPartition) (states : List (String × String)),
    Keeps I P (partitionLoadStatesLoop ctx db collectionName partitions states) s
  | [], _ => .pure _
  | _ :: rest, _ => .bind (.call _ _) fun _ => by
    simp only [pure_bind]
    split
    · exact .pure _
    · exact partitionLoadStatesLoop_keeps ctx db collectionName rest _

theorem loadStates_keeps (ctx : Ctx) (db collectionName : String)
    (partitions : List EntityPartition) (progress : Int) :
    Keeps I P (loadStates ctx db collectionName partitions progress) s := by
  unfold loadStates
  split
  · exact .pure _
  split
  · exact .pure _
  exact .bind (partitionLoadStatesLoop_keeps _ _ _ _ _) fun _ => by split <;> exact .pure _

/-- Without `force`, the segments of a flush are found after recording the flush's checkpoints
on the collection record. -/
theorem unfilledSegments_keeps (ctx : Ctx) (collectionBackup : CollectionBackupInfo) (force : Bool)
    (h : ∀ opts m cp dp, I m cp dp →
      I (m.updateCollection collectionBackup.id collectionBackup.collectionId opts) cp dp) :
    Keeps I P (unfilledSegments ctx collectionBackup force) s := by
  unfold unfilledSegments
  simp only [pure_bind]
  split
  · refine .bind (.call _ _) fun _ => ?_
    split
    · exact .pure _
    refine .bind (.call _ _) fun _ => ?_
    split
    · exact .pure _
    refine .bind (.modifyMeta (h _)) fun _ => .bind (.call _ _) fun _ => ?_
    split <;> exact .pure _
  · exact .bind (.call _ _) fun _ => by split <;> exact .pure _

/-- **What prepare writes**: the collection record of its backup, that record's updates, and
partition and segment records – the two tables shared by every backup. -/
theorem backupCollectionPrepare_keeps (ctx : Ctx) (backupInfo : BackupInfo)
    (collection : CollectionStruct) (force : Bool)
    (hcoll : ∀ c m cp dp, c.id = backupInfo.id → I m cp dp → I (m.addCollection c) cp dp)
    (hupd : ∀ collectionId opts m cp dp, I m cp dp →
      I (m.updateCollection backupInfo.id collectionId opts) cp dp)
    (hpart : ∀ p m cp dp, I m cp dp → I (m.addPartition p) cp dp)
    (hseg : ∀ (seg : EntitySegment) m cp dp, I m cp dp →
      I (m.addSegment seg.toSegmentBackupInfo) cp dp) :
    Keeps I P (backupCollectionPrepare ctx backupInfo collection force) s := by
  unfold backupCollectionPrepare
  simp only [pure_bind]
  refine .bind (.call _ _) fun _ => ?_
  split
  · exact .pure _
  refine .bind (describeIndexesLoop_keeps _ _ _ _) fun _ => ?_
  split
  · exact .pure _
  refine .bind (.call _ _) fun _ => .bind (.modifyMeta (hcoll _ · · · rfl)) fun _ => ?_
  refine .bind (.call _ _) fun _ => ?_
  split
  · exact .pure _
  refine .bind (.call _ _) fun _ => ?_
  split
  · exact .pure _
  refine .bind (loadStates_keeps _ _ _ _ _) fun _ => ?_
  split
  · exact .pure _
  refine .bind (unfilledSegments_keeps _ _ _ (hupd _)) fun _ => ?_
  split
  · exact .pure _
  refine .bind (.forM fun _ _ => .modifyMeta (hseg _)) fun _ => ?_
  refine .bind (.forM fun _ _ => .modifyMeta (hpart _)) fun _ => ?_
  exact .bind (.modifyMeta (hupd _ _)) fun _ => .bind (.modifyMeta (hupd _ _)) fun _ => .pure _

end Keeps

end MilvusBackup

namespace MilvusBackup

open BackupM

/-! ### What a successful prepare leaves -/

/-- A collection record holds the checkpoints of a flush: each channel of the flush's checkpoint
map with its encoded position, in the map's order, and as backup timestamp the largest checkpoint
timestamp, `0` for an empty map. -/
def CollectionBackupInfo.CheckpointsOf (c : CollectionBackupInfo) (flush : FlushResult) : Prop :=
  c.channelCheckpoints = flush.channelCPs.entries.map (fun e => (e.1, e.2.base64)) ∧
    c.backupTimestamp = (flush.channelCPs.entries.map (·.2.timestamp)).max?.getD 0

/-- The indexes of a collection record are those `DescribeIndex` answered, from tick `t`, for
the fields of the described collection `cc`: each name once, with the field, type and parameters
of its first answer, and `hasIndex` telling whether there is any. -/
def CollectionBackupInfo.IndexesAnswered (c : CollectionBackupInfo) (s : Setting) (t : Nat)
    (db : String) (cc : EntityCollection) : Prop :=
  c.schema = cc.schema.toCollectionSchema ∧ (c.hasIndex = true ↔ c.indexInfos ≠ []) ∧
    ∃ answered, describedFieldIndexes s db cc.name t cc.schema.fields = some answered ∧
      IndexSelection (answered.flatMap fun a => a.2.map (a.1, ·)) c.indexInfos

/-- No collection option touches the schema or the indexes. -/
theorem CollectionBackupInfo.IndexesAnswered.applyOpts {c : CollectionBackupInfo} {s : Setting}
    {t : Nat} {db : String} {cc : EntityCollection} (h : c.IndexesAnswered s t db cc) (opts : List CollectionOpt) :
    (applyOpts CollectionOpt.apply opts c).IndexesAnswered s t db cc := by
  have hkeep := @applyOpts_keep _ _ _ CollectionOpt.apply
    (fun c => (c.schema, c.hasIndex, c.indexInfos)) (fun o c => by cases o <;> rfl) opts c
  simp only [Prod.mk.injEq] at hkeep
  rwa [CollectionBackupInfo.IndexesAnswered, hkeep.1, hkeep.2.1, hkeep.2.2]

/-- The collection `DescribeCollection` describes at tick `t₀`. -/
def describedCollection (s : Setting) (t₀ : Nat) (collection : CollectionStruct) :
    EntityCollection :=
  (s.env.describeCollection t₀ false collection.db collection.collectionName).1

/-- What prepare has recorded on the collection record `cb` once it has its segments: every
record of the collection satisfies `Φ` and, without `force`, holds the checkpoints of the flush
answered two ticks before the last call. -/
def SegmentsFound (s : Setting) (ctx : Ctx) (cb : CollectionBackupInfo) (force : Bool)
    (Φ : CollectionBackupInfo → Prop) (w : World) : Prop :=
  w.meta.RecordsOf cb.id cb.collectionId Φ ∧
    (force = false → ∃ t flush, w.clock = t + 3 ∧
      s.env.flushV2 (t + 1) (s.cancelled ctx (t + 1)) cb.dbName cb.collectionName = (flush, none) ∧
      w.meta.RecordsOf cb.id cb.collectionId (·.CheckpointsOf flush))

section SegmentsFound

variable {s : Setting} {ctx : Ctx} {cb : CollectionBackupInfo} {force : Bool}
  {Φ : CollectionBackupInfo → Prop}

/-- A write that leaves the collection table alone keeps what prepare recorded. -/
theorem SegmentsFound.setMeta {w : World} (h : SegmentsFound s ctx cb force Φ w)
    {f : MetaManager → MetaManager} (hf : (f w.meta).collections = w.meta.collections) :
    SegmentsFound s ctx cb force Φ (w.setMeta f) :=
  ⟨h.1.of_collections_eq hf, fun hforce => (h.2 hforce).imp fun _ ⟨flush, hc, hflush, hcp⟩ =>
    ⟨flush, hc, hflush, hcp.of_collections_eq hf⟩⟩

/-- An update of the collection whose options keep the checkpoints. -/
theorem SegmentsFound.updateCollection {w : World} (h : SegmentsFound s ctx cb force Φ w)
    (opts : List CollectionOpt) (Ψ : CollectionBackupInfo → Prop)
    (hΦ : ∀ c, Φ c → Ψ (applyOpts CollectionOpt.apply opts c))
    (hcp : ∀ c flush, c.CheckpointsOf flush →
      (applyOpts CollectionOpt.apply opts c).CheckpointsOf flush) :
    SegmentsFound s ctx cb force Ψ (w.setMeta (·.updateCollection cb.id cb.collectionId opts)) :=
  ⟨h.1.updateCollection opts hΦ, fun hforce => (h.2 hforce).imp fun _ ⟨flush, hc, hflush, hr⟩ =>
    ⟨flush, hc, hflush, hr.updateCollection opts fun c => hcp c flush⟩⟩

end SegmentsFound

/-- The segments prepare asks for, with `force` or without, leave the records of the collection
as they were, but for the checkpoints of the flush. -/
theorem unfilledSegments_records (ctx : Ctx) (cb : CollectionBackupInfo) (force : Bool)
    (s : Setting) {Φ : CollectionBackupInfo → Prop}
    (hΦ : ∀ opts c, Φ c → Φ (applyOpts CollectionOpt.apply opts c)) :
    Triple (fun w => w.meta.RecordsOf cb.id cb.collectionId Φ) (unfilledSegments ctx cb force)
      (fun r w => ∀ unfilled, r = .ok unfilled → SegmentsFound s ctx cb force Φ w) s := by
  cases force with
  | false =>
    intro w hw unfilled hr
    obtain ⟨-, flush, -, -, hflush, -, hc, hm, -⟩ :=
      unfilledSegments_spec ctx cb w.clock w.meta s _ ⟨rfl, rfl⟩ unfilled hr
    rw [SegmentsFound, hm]
    refine ⟨hw.updateCollection _ fun c hc => hΦ _ c hc, fun _ => ⟨w.clock, flush, hc, hflush,
      (hw.mono fun _ _ => trivial).updateCollection _ fun c _ => ?_⟩⟩
    simp [applyOpts, CollectionOpt.apply, CollectionBackupInfo.CheckpointsOf, channelCheckpointsOf_eq]
  | true =>
    unfold unfilledSegments
    simp only [Bool.not_true, Bool.false_eq_true, ↓reduceIte, BackupM.pure_bind]
    refine .bind ((Keeps.call ctx _).triple :
      Triple (World.Holds fun m _ _ => m.RecordsOf cb.id cb.collectionId Φ) _ _ s) fun _ => ?_
    split
    · exact .pure fun _ _ _ h => nomatch h
    · exact .pure fun _ hw _ _ => ⟨hw, nofun⟩

/-- **What a prepare records**: when a prepare started at tick `t₀` returns `nil`, the backup
holds a record of the collection `DescribeCollection` described at `t₀`. Each of its records of
that collection has the indexes `DescribeIndex` answered from `t₀ + 1` and size `0`; without
`force`, each holds the checkpoints of the flush answered two ticks before the prepare's last
call. -/
theorem backupCollectionPrepare_records (ctx : Ctx) (backupInfo : BackupInfo)
    (collection : CollectionStruct) (force : Bool) (s : Setting) (t₀ : Nat) :
    Triple (fun w => w.clock = t₀) (backupCollectionPrepare ctx backupInfo collection force)
      (fun r w => r = none →
        w.meta.RecordsOf backupInfo.id (describedCollection s t₀ collection).id (fun c =>
          c.IndexesAnswered s (t₀ + 1) collection.db (describedCollection s t₀ collection) ∧
            c.size = 0) ∧
        (force = false → ∃ t flush, w.clock = t + 3 ∧
          s.env.flushV2 (t + 1) (s.cancelled ctx (t + 1)) collection.db
            (describedCollection s t₀ collection).name = (flush, none) ∧
          w.meta.RecordsOf backupInfo.id (describedCollection s t₀ collection).id
            (·.CheckpointsOf flush))) s := by
  refine .of_meta fun m₀ => ?_
  unfold backupCollectionPrepare describedCollection
  refine .call_at ?_
  rw [show s.cancelled .engine t₀ = false from rfl]
  rcases hcc : s.env.describeCollection t₀ false collection.db collection.collectionName with
    ⟨cc, _ | e⟩
  all_goals dsimp only
  swap
  · exact .pure fun _ _ h => nomatch h
  simp only [BackupM.pure_bind]
  refine .bind (describeIndexesLoop_spec collection.db cc.name m₀ s cc.schema.fields [] (t₀ + 1))
    fun indexInfos => ?_
  rcases indexInfos with e | infos
  · exact .pure fun _ _ h => nomatch h
  dsimp only
  refine .assume (fun w ⟨_, hr⟩ => (hr _ rfl).2) fun ⟨answered, hanswered, hinfos⟩ => ?_
  refine .mono ?_ (fun w ⟨hm, hr⟩ => (⟨(hr _ rfl).1, hm⟩ :
    w.clock = t₀ + 1 + cc.schema.fields.length ∧ w.meta = m₀)) fun _ _ h => h
  refine .call_at (.modifyMeta_at (.call_at ?_))
  split
  · exact .pure fun _ _ h => nomatch h
  refine .call_at ?_
  split
  · exact .pure fun _ _ h => nomatch h
  refine .bind ((Keeps.triple_meta (loadStates_keeps _ _ _ _ _)).mono (fun w h => h.2)
    fun _ _ h => h) fun ls => ?_
  rcases ls with e | ⟨collectionLoadState, partitionLoadStates⟩
  · exact .pure fun _ _ h => nomatch h
  dsimp only
  refine .bind ((unfilledSegments_records ctx _ force s
    fun opts c (h : c.IndexesAnswered s (t₀ + 1) collection.db cc) => h.applyOpts opts).mono
    (fun w hw => ?_) fun _ _ h => h) fun r => ?_
  · rw [hw]
    refine (MetaManager.recordsOf_addCollection _).mono fun c hc => ?_
    subst hc
    refine ⟨rfl, by simp [List.length_pos], answered, hanswered, ?_⟩
    simpa [hinfos] using
      IndexSelection.foldl answered (⟨by simp, by simp, by simp⟩ : IndexSelection [] [])
  rcases r with e | unfilled
  · exact .pure fun _ _ h => nomatch h
  dsimp only
  refine .mono ?_ (fun w h => h _ rfl) fun _ _ h => h
  refine .bind (.forM fun _ _ => .modifyMeta fun w h => h.setMeta rfl) fun _ => ?_
  refine .bind (.forM fun _ _ => .modifyMeta fun w h => h.setMeta rfl) fun _ => ?_
  refine .modifyMeta_bind (fun w h => h.updateCollection [.setCollectionLoadState _]
    (·.IndexesAnswered s (t₀ + 1) collection.db cc) (fun _ h => h.applyOpts _) fun _ _ h => h) ?_
  refine .modifyMeta_bind (fun w h => h.updateCollection [.setCollectionSize _]
    (fun c => c.IndexesAnswered s (t₀ + 1) collection.db cc ∧ c.size = 0)
    (fun _ h => ⟨h.applyOpts _, rfl⟩) fun _ _ h => h) ?_
  exact .pure fun w h _ => h

/-- **The checkpoints prepare records**: without `force`, when a prepare started at tick `t₀`
returns `nil`, every record of the described collection in the backup holds, whatever the order
in which the flush's checkpoint map is walked, exactly the map's channels, each with its encoded
position, and as backup timestamp the largest checkpoint timestamp, `0` for an empty map – of the
flush that answered without error two ticks before the prepare's last call. -/
theorem backupCollectionPrepare_checkpoints (ctx : Ctx) (backupInfo : BackupInfo)
    (collection : CollectionStruct) (s : Setting) (t₀ : Nat) :
    Triple (fun w => w.clock = t₀) (backupCollectionPrepare ctx backupInfo collection false)
      (fun r w => r = none → ∃ t flush, w.clock = t + 3 ∧
        s.env.flushV2 (t + 1) (s.cancelled ctx (t + 1)) collection.db
          (describedCollection s t₀ collection).name = (flush, none) ∧
        w.meta.RecordsOf backupInfo.id (describedCollection s t₀ collection).id fun c =>
          c.channelCheckpoints = flush.channelCPs.entries.map (fun e => (e.1, e.2.base64)) ∧
          c.backupTimestamp = (flush.channelCPs.entries.map (·.2.timestamp)).max?.getD 0) s :=
  (backupCollectionPrepare_records ctx backupInfo collection false s t₀).mono (fun _ h => h)
    fun _ _ h hr => (h hr).2 rfl

end MilvusBackup

namespace MilvusBackup

/-! ### Choosing on a fixed Milvus -/

/-- Milvus knows no collection. -/
def noCollectionEnv : Env :=
  { Env.nominal with
    hasCollection := fun _ _ _ _ => (false, none)
    unmarshalDbCollections := fun _ => .ok [("default", ["missing"])] }

/-- The selection is neither de-duplicated nor checked under `dbCollections`: a collection named
twice, once with its database, is chosen twice, and a collection listed in `dbCollections` that
does not exist is chosen without error. -/
theorem parseBackupCollections_duplicates_and_unknown :
    (parseBackupCollections { collectionNames := ["coll", "default.coll"] }
      ⟨dailyConfig, Env.nominal, none⟩ { meta := .empty }).1.toOption =
      some [⟨"default", "coll"⟩, ⟨"default", "coll"⟩] ∧
    (parseBackupCollections { dbCollections := "\x7b\"default\":[\"missing\"]\x7d" }
      ⟨dailyConfig, noCollectionEnv, none⟩ { meta := .empty }).1.toOption =
      some [⟨"default", "missing"⟩] := by
  decide

end MilvusBackup
