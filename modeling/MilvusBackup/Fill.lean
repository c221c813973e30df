import MilvusBackup.Invariant

/-!
# Listing the binlogs of a segment

`fillSegmentBackupInfo` records the binlogs of one segment as the object store lists them: the
field directories under `{R/}insert_log/c/p/s/` and `{R/}delta_log/c/p/s/`, and the objects in
each, with their sizes. The record gets the two lists and the **sum of every listed size**, added
up in Go's `int64` and so wrapped modulo `2^64` (`MilvusBackup.fillSegmentBackupInfo_size`); no
other field of it changes.

Only the listing of the insert directory is checked: an empty listing fails, and its error is
returned after that. The listings of the field directories and of the delta directory drop their
errors, so a listing that fails records what it returned – nothing, in practice. A segment
without delta directory gets a placeholder field binlog with field id `0` and no binlog.
-/

namespace MilvusBackup

open BackupM

/-- `SEPERATOR`. -/
def seperator : String := "/"

@[simp] theorem seperator_data : seperator.data = ['/'] := rfl

/-- `rootPath` of `fillSegmentBackupInfo`: the Milvus root path followed by `/`, or nothing. -/
def milvusRootPrefix (rootPath : String) : String :=
  if rootPath ≠ "" then rootPath ++ "/" else ""

/-- The directory `{R/}kind/c/p/s/` of a segment's binlogs of one kind. -/
def segmentLogPath (rootPath kind : String) (segment : SegmentBackupInfo) : String :=
  rootPath ++ kind ++ "/" ++ Go.formatInt segment.collectionId ++ "/" ++
    Go.formatInt segment.partitionId ++ "/" ++ Go.formatInt segment.segmentId ++ "/"

/-- The error of a segment whose insert directory lists nothing. -/
def emptyInsertPathMessage (insertPath : String) : GoError :=
  "Get empty input path, but segment should not be empty, " ++ insertPath

/-- One field directory of `fillSegmentBackupInfo`'s loops: its objects are listed (the error
dropped) and recorded with their sizes, under the field id read off the directory's name. -/
def fillFieldBinlog (ctx : Ctx) (logPath fieldLogDir : String) : BackupM FieldBinlog := do
  let s ← setting
  let (binlogPaths, _) ← listWithPrefix ctx s.cfg.milvusBucketName fieldLogDir
  let fieldIdStr := Go.replaceAll (Go.replaceFirst fieldLogDir logPath "") seperator ""
  let fieldId := Go.parseInt fieldIdStr
  pure { fieldID := fieldId, binlogs := binlogPaths.map fun (path, size) => ⟨path, size⟩ }

/-- The loop of `fillSegmentBackupInfo` over the field directories of one kind, with its
accumulators: the field binlogs so far and the `int64` `size`, to which every listed size is
added in turn. -/
def fillFieldBinlogs (ctx : Ctx) (logPath : String) :
    List String → List FieldBinlog → Int → BackupM (List FieldBinlog × Int)
  | [], logs, size => pure (logs, size)
  | fieldLogDir :: rest, logs, size => do
    let fieldBinlog ← fillFieldBinlog ctx logPath fieldLogDir
    fillFieldBinlogs ctx logPath rest (logs ++ [fieldBinlog])
      ((fieldBinlog.binlogs.map Binlog.logSize).foldl Go.addInt64 size)

/-- `fillSegmentBackupInfo(ctx, segmentBackupInfo)`. -/
def fillSegmentBackupInfo (ctx : Ctx) (segmentBackupInfo : SegmentBackupInfo) :
    BackupM (Option GoError) := do
  let s ← setting
  let rootPath := milvusRootPrefix s.cfg.milvusRootPath
  let insertPath := segmentLogPath rootPath "insert_log" segmentBackupInfo
  let (fieldsLogDir, err) ← listWithPrefix ctx s.cfg.milvusBucketName insertPath
  if fieldsLogDir.length = 0 then return some (emptyInsertPathMessage insertPath)
  if let some e := err then return some e
  let (insertLogs, size) ← fillFieldBinlogs ctx insertPath (fieldsLogDir.map Prod.fst) [] 0
  let deltaLogPath := segmentLogPath rootPath "delta_log" segmentBackupInfo
  let (deltaFieldsLogDir, _) ← listWithPrefix ctx s.cfg.milvusBucketName deltaLogPath
  let (deltaLogs, size) ← fillFieldBinlogs ctx deltaLogPath (deltaFieldsLogDir.map Prod.fst) [] size
  let deltaLogs := if deltaLogs.length = 0 then [{ fieldID := 0 }] else deltaLogs
  modifyMeta (·.updateSegment segmentBackupInfo.segmentId
    [.setSegmentBinlogs insertLogs, .setSegmentDeltaBinlogs deltaLogs, .setSegmentSize size])
  pure none

/-! ### The recorded size -/

/-- The sizes of the binlogs of a list of field binlogs, in order. -/
def FieldBinlog.logSizes (l : List FieldBinlog) : List Int :=
  l.flatMap fun fb => fb.binlogs.map Binlog.logSize

@[simp] theorem logSizes_cons (fb : FieldBinlog) (l : List FieldBinlog) :
    FieldBinlog.logSizes (fb :: l) = fb.binlogs.map Binlog.logSize ++ FieldBinlog.logSizes l :=
  List.flatMap_cons _ _ _

theorem sum_logSizes (l : List FieldBinlog) :
    (FieldBinlog.logSizes l).sum = FieldBinlog.totalSize l := by
  induction l with
  | nil => rfl
  | cons fb l ih => simp [ih, FieldBinlog.totalSize]

/-- The loop adds to `size`, one `int64` addition at a time, the sizes of the field binlogs it
appends. -/
theorem fillFieldBinlogs_ensures (ctx : Ctx) (logPath : String) (s : Setting) :
    ∀ (dirs : List String) (logs : List FieldBinlog) (size : Int),
    Ensures (fun r => ∃ more, r.1 = logs ++ more ∧
        r.2 = (FieldBinlog.logSizes more).foldl Go.addInt64 size)
      (fillFieldBinlogs ctx logPath dirs logs size) s
  | [], logs, size => .pure ⟨[], by simp, rfl⟩
  | dir :: dirs, logs, size => by
    refine .bind (.triv _) fun fb _ => (fillFieldBinlogs_ensures ctx logPath s dirs _ _).mono ?_
    rintro r ⟨more, h₁, h₂⟩
    exact ⟨fb :: more, by simp [h₁], by rw [h₂, logSizes_cons, List.foldl_append]⟩

/-- A segment record whose size is the sum of the sizes of its binlogs, as an `int64`. -/
def SegmentBackupInfo.SizeConsistent (seg : SegmentBackupInfo) : Prop :=
  seg.size = Go.toInt64 (FieldBinlog.totalSize seg.binlogs + FieldBinlog.totalSize seg.deltalogs)

@[simp] theorem totalSize_placeholder : FieldBinlog.totalSize [{ fieldID := 0 }] = 0 := rfl

/-- The option sets the create path updates a segment record with: a fill's binlogs with their
`int64` size, and the group id and the backed-up mark a copy sets. -/
inductive SegmentOpt.OfCreatePath : List SegmentOpt → Prop
  | fill (insertLogs deltaLogs : List FieldBinlog) :
    OfCreatePath [.setSegmentBinlogs insertLogs, .setSegmentDeltaBinlogs deltaLogs,
      .setSegmentSize
        (Go.toInt64 (FieldBinlog.totalSize insertLogs + FieldBinlog.totalSize deltaLogs))]
  | groupId (g : Int) : OfCreatePath [.setGroupId g]
  | backuped : OfCreatePath [.setBackuped true]

/-- An update of the create path keeps a record's size the sum of its binlog sizes: a fill
writes both, a copy neither. -/
theorem SegmentOpt.OfCreatePath.sizeConsistent {opts : List SegmentOpt} (h : OfCreatePath opts)
    {seg : SegmentBackupInfo} (hseg : seg.SizeConsistent) :
    (applyOpts SegmentOpt.apply opts seg).SizeConsistent := by
  cases h with
  | fill => rfl
  | groupId | backuped => exact hseg

/-- **A filled segment's size is the sum of its binlog sizes**: when `fillSegmentBackupInfo`
returns `nil`, the record of the segment holds the listed binlogs and the `int64` sum of their
sizes. -/
theorem fillSegmentBackupInfo_size (ctx : Ctx) (segment : SegmentBackupInfo) (s : Setting) :
    Triple (fun _ => True) (fillSegmentBackupInfo ctx segment)
      (fun r w => r = none → ∀ seg ∈ w.meta.segments, seg.segmentId = segment.segmentId →
        seg.SizeConsistent) s := by
  refine .setting_bind (.bind (.of_ensures (.triv _)) fun ⟨dirs, err⟩ => ?_)
  dsimp only
  split
  · exact .pure fun _ _ h => absurd h (by simp)
  simp only [pure_bind]
  split
  · exact .pure fun _ _ h => absurd h (by simp)
  refine .bind (.of_ensures (fillFieldBinlogs_ensures _ _ s _ _ _)) fun ins => .intro ?_
  rintro ⟨imore, hi₁, hi₂⟩
  refine .bind (.of_ensures (.triv _)) fun _ => ?_
  refine .bind (.of_ensures (fillFieldBinlogs_ensures _ _ s _ _ _)) fun del => .intro ?_
  rintro ⟨dmore, hd₁, hd₂⟩
  refine .bind (.modifyMeta ?_ : Triple _ _ (fun _ w => ∀ seg ∈ w.meta.segments,
    seg.segmentId = segment.segmentId → seg.SizeConsistent) s) fun _ => .pure fun _ h _ => h
  intro w _ seg hseg hid
  simp only [World.setMeta_meta, MetaManager.updateSegment_segments, List.mem_map] at hseg
  obtain ⟨seg₀, -, rfl⟩ := hseg
  by_cases h : seg₀.segmentId = segment.segmentId
  · rw [if_pos h]
    simp only [applyOpts, List.foldl, SegmentOpt.apply, SegmentBackupInfo.SizeConsistent, hd₂, hi₂,
      hi₁, hd₁, List.nil_append, Go.foldl_addInt64_zero, Go.foldl_addInt64, sum_logSizes]
    split
    · simp_all [FieldBinlog.totalSize]
    · rfl
  · rw [if_neg h] at hid
    exact absurd hid h

end MilvusBackup

namespace MilvusBackup

open BackupM

/-! ### What a fill writes -/

theorem fillFieldBinlogs_keeps {I : Invariant} {P : Event → Prop} (ctx : Ctx) (logPath : String)
    (s : Setting) : ∀ (dirs : List String) (logs : List FieldBinlog) (size : Int),
    Keeps I P (fillFieldBinlogs ctx logPath dirs logs size) s
  | [], _, _ => .pure _
  | _ :: dirs, _, _ => .bind (.setting_bind (.bind (.call _ _) fun _ => .pure _)) fun _ =>
    fillFieldBinlogs_keeps ctx logPath s dirs _ _

/-- A fill writes the record of its segment's id and nothing else, and logs nothing. -/
theorem fillSegmentBackupInfo_keeps {I : Invariant} {P : Event → Prop} (ctx : Ctx)
    (segment : SegmentBackupInfo) (s : Setting)
    (h : ∀ opts m cp dp, SegmentOpt.OfCreatePath opts → I m cp dp →
      I (m.updateSegment segment.segmentId opts) cp dp) :
    Keeps I P (fillSegmentBackupInfo ctx segment) s := by
  refine .setting_bind (.bind (.call _ _) fun ⟨dirs, err⟩ => ?_)
  dsimp only
  split
  · exact .pure _
  simp only [pure_bind]
  split
  · exact .pure _
  refine .bind_ensures (fillFieldBinlogs_keeps _ _ s _ _ _) (fillFieldBinlogs_ensures _ _ s _ _ _)
    fun _ ⟨imore, hi₁, hi₂⟩ => .bind (.call _ _) fun _ => ?_
  refine .bind_ensures (fillFieldBinlogs_keeps _ _ s _ _ _) (fillFieldBinlogs_ensures _ _ s _ _ _)
    fun _ ⟨dmore, hd₁, hd₂⟩ => .bind (.modifyMeta (h _ · · · ?_)) fun _ => .pure _
  rw [hd₂, hi₂, hi₁, hd₁, List.nil_append, List.nil_append, Go.foldl_addInt64_zero,
    Go.foldl_addInt64, sum_logSizes, sum_logSizes]
  split
  · next hnil =>
    rw [List.length_eq_zero.1 hnil]
    exact .fill _ _
  · exact .fill _ _

end MilvusBackup

namespace MilvusBackup

/-! ### Runs on a fixed segment -/

/-- Binlogs under `files` in bucket `milvus`, backups under `backup` in bucket `backup`. -/
def dailyConfig : Config := ⟨"milvus", "backup", "files", "backup"⟩

/-- Segment `7` of partition `2` of collection `12`, with one insert and one delta binlog of
field `100`, listed as `fillSegmentBackupInfo` lists them. -/
def dailySegment : SegmentBackupInfo :=
  { segmentId := 7, collectionId := 12, partitionId := 2,
    binlogs := [{ fieldID := 100,
                  binlogs := [{ logPath := "files/insert_log/12/2/7/100/1", logSize := 10 }] }],
    deltalogs := [{ fieldID := 100,
                    binlogs := [{ logPath := "files/delta_log/12/2/7/100/2", logSize := 3 }] }] }

/-- A backup `daily` of collection `12`, holding `dailySegment`. -/
def dailyMeta : MetaManager :=
  (((MetaManager.empty.addBackup { id := "b", name := "daily" }).addCollection
    { id := "b", collectionId := 12 }).addPartition { partitionId := 2, collectionId := 12 }).addSegment
    dailySegment

/-- The insert directory of `dailySegment` lists field `100`; every other listing fails. -/
def failingFieldListingEnv : Env :=
  { Env.nominal with
    listWithPrefix := fun _ _ _ path =>
      if path = "files/insert_log/12/2/7/" then ([("files/insert_log/12/2/7/100/", 0)], none)
      else ([], some "list failed") }

/-- The failed listings of the field directory and of the delta directory are dropped: the fill
returns `nil` and records field `100` with no binlog and the placeholder delta binlog, in place
of the binlogs the record held. -/
theorem fillSegmentBackupInfo_drops_listing_errors :
    (fillSegmentBackupInfo .engine dailySegment ⟨dailyConfig, failingFieldListingEnv, none⟩
      { meta := dailyMeta }).1 = none ∧
    ((fillSegmentBackupInfo .engine dailySegment ⟨dailyConfig, failingFieldListingEnv, none⟩
      { meta := dailyMeta }).2.meta.getSegment 7).map (fun seg => (seg.binlogs, seg.deltalogs)) =
      some ([{ fieldID := 100 }], [{ fieldID := 0 }]) := by
  decide

/-! ### What a fill records -/

/-- The field binlog of a listed field directory: its field id, and its objects with their
sizes, in listed order. -/
def FieldBinlog.ofListing (fieldID : Int) (files : List (String × Int)) : FieldBinlog :=
  { fieldID := fieldID, binlogs := files.map fun (path, size) => ⟨path, size⟩ }

/-- The directory of field `fieldID` under `logPath`. -/
def fieldLogDir (logPath : String) (fieldID : Int) : String :=
  logPath ++ Go.formatInt fieldID ++ "/"

/-- The field id read off a field directory is the one it was named after. -/
theorem fieldId_of_fieldLogDir (logPath : String) {fieldID : Int} (h₁ : -2 ^ 63 ≤ fieldID)
    (h₂ : fieldID < 2 ^ 63) :
    Go.parseInt (Go.replaceAll (Go.replaceFirst (fieldLogDir logPath fieldID) logPath "")
      seperator "") = fieldID := by
  have hfirst : Go.replaceFirst (fieldLogDir logPath fieldID) logPath "" =
      Go.formatInt fieldID ++ "/" := String.ext <| by
    simp [fieldLogDir, Go.replaceFirstChars_append_self]
  have hall : Go.replaceAll (Go.formatInt fieldID ++ "/") seperator "" = Go.formatInt fieldID := by
    rw [show seperator = ⟨['/']⟩ from rfl, Go.replaceAll_single]
    exact String.ext <| by
      simpa using fun c hc (h : c = '/') => Go.slash_not_mem_formatInt fieldID (h ▸ hc)
  rw [hfirst, hall, Go.parseInt_formatInt h₁ h₂]

section Records

variable {s : Setting}

/-- A field directory whose listing succeeds: the object store holds `files` under it, and its
name carries an `int64` field id. -/
def Listed (s : Setting) (logPath : String) (field : Int × List (String × Int)) : Prop :=
  -2 ^ 63 ≤ field.1 ∧ field.1 < 2 ^ 63 ∧
    ∀ t c, s.env.listWithPrefix t c s.cfg.milvusBucketName (fieldLogDir logPath field.1) =
      (field.2, none)

theorem fillFieldBinlog_listed (ctx : Ctx) (logPath : String) {field : Int × List (String × Int)}
    (h : Listed s logPath field) :
    Ensures (· = FieldBinlog.ofListing field.1 field.2)
      (fillFieldBinlog ctx logPath (fieldLogDir logPath field.1)) s := fun w => by
  obtain ⟨h₁, h₂, hl⟩ := h
  simp [fillFieldBinlog, listWithPrefix, hl, fieldId_of_fieldLogDir _ h₁ h₂, FieldBinlog.ofListing]

/-- The loop over listed field directories records one field binlog per directory and adds up
the sizes of their objects, one `int64` addition at a time. -/
theorem fillFieldBinlogs_listed (ctx : Ctx) (logPath : String) :
    ∀ (fields : List (Int × List (String × Int))) (logs : List FieldBinlog) (size : Int),
    (∀ field ∈ fields, Listed s logPath field) →
    Ensures (· = (logs ++ fields.map (fun f => FieldBinlog.ofListing f.1 f.2),
        (fields.flatMap fun f => f.2.map Prod.snd).foldl Go.addInt64 size))
      (fillFieldBinlogs ctx logPath (fields.map (fieldLogDir logPath ·.1)) logs size) s
  | [], logs, size, _ => .pure (by simp)
  | field :: fields, logs, size, h => by
    refine .bind (fillFieldBinlog_listed ctx logPath (h field (List.mem_cons_self _ _)))
      fun fb hfb => ?_
    refine (fillFieldBinlogs_listed ctx logPath fields _ _
      fun f hf => h f (List.mem_cons_of_mem _ hf)).mono fun r hr => ?_
    subst hfb
    rw [hr]
    simp [FieldBinlog.ofListing, Function.comp_def, List.foldl_append]

/-- The object store lists exactly the directories of `fields` under `logPath`, each holding its
files. -/
def ListsFields (s : Setting) (logPath : String) (fields : List (Int × List (String × Int))) :
    Prop :=
  ∃ dirs : List (String × Int),
    (∀ t c, s.env.listWithPrefix t c s.cfg.milvusBucketName logPath = (dirs, none)) ∧
    dirs.map Prod.fst = fields.map (fieldLogDir logPath ·.1) ∧ ∀ field ∈ fields, Listed s logPath field

/-- **What a fill records**: when the object store lists a non-empty set of field directories
under the insert directory of a segment, and any under its delta directory, each named after an
`int64` field id and holding its files, and every listing succeeds, `fillSegmentBackupInfo`
returns `nil` and records one field binlog per directory, with the directory's field id and
files in listed order – a placeholder of field `0` when there is no delta directory – and the
sum of every listed size as Go's `int64` holds it: wrapped modulo `2^64`, and so the sum itself
whenever it lies in `[-2^63, 2^63)` (`MilvusBackup.Go.toInt64_of_range`). -/
theorem fillSegmentBackupInfo_records (ctx : Ctx) (segment : SegmentBackupInfo) (m : MetaManager)
    (insertFields deltaFields : List (Int × List (String × Int)))
    (hinsert : ListsFields s
      (segmentLogPath (milvusRootPrefix s.cfg.milvusRootPath) "insert_log" segment) insertFields)
    (hinsertNe : insertFields ≠ [])
    (hdelta : ListsFields s
      (segmentLogPath (milvusRootPrefix s.cfg.milvusRootPath) "delta_log" segment) deltaFields) :
    Triple (fun w => w.meta = m) (fillSegmentBackupInfo ctx segment)
      (fun r w => r = none ∧ w.meta.getSegment segment.segmentId =
        (m.getSegment segment.segmentId).map fun seg =>
          { seg with
            binlogs := insertFields.map fun f => FieldBinlog.ofListing f.1 f.2
            deltalogs := if deltaFields = [] then [{ fieldID := 0 }]
              else deltaFields.map fun f => FieldBinlog.ofListing f.1 f.2
            size := Go.toInt64
              ((insertFields ++ deltaFields).map fun f => (f.2.map Prod.snd).sum).sum }) s := by
  obtain ⟨insertDirs, hI, hIdirs, hIfields⟩ := hinsert
  obtain ⟨deltaDirs, hD, hDdirs, hDfields⟩ := hdelta
  unfold fillSegmentBackupInfo
  refine .setting_bind (.bind_eq (Keeps.triple_meta_eq (.call _ _) fun w => hI _ _) ?_)
  dsimp only
  have hlen : insertDirs.length ≠ 0 := by
    rw [← List.length_map insertDirs Prod.fst, hIdirs, List.length_map]
    exact fun h => hinsertNe (List.length_eq_zero.1 h)
  refine .ite (fun h => absurd h hlen) fun _ => ?_
  simp only [BackupM.pure_bind, hIdirs]
  refine .bind_eq (Keeps.triple_meta_eq (fillFieldBinlogs_keeps _ _ _ _ _ _)
    (fillFieldBinlogs_listed _ _ _ _ _ hIfields)) ?_
  refine .bind_eq (Keeps.triple_meta_eq (.call _ _) fun w => hD _ _) ?_
  dsimp only
  rw [hDdirs]
  refine .bind_eq (Keeps.triple_meta_eq (fillFieldBinlogs_keeps _ _ _ _ _ _)
    (fillFieldBinlogs_listed _ _ _ _ _ hDfields)) ?_
  refine .bind (.modifyMeta fun w hw => ?_ : Triple _ _ (fun _ w => w.meta.getSegment
    segment.segmentId = _) s) fun _ => .pure fun _ h => ⟨rfl, h⟩
  rw [World.setMeta_meta, hw, MetaManager.getSegment_updateSegment]
  congr 1
  funext seg
  simp [applyOpts, SegmentOpt.apply, List.length_eq_zero, Go.foldl_addInt64_zero,
    Go.foldl_addInt64, List.flatMap, List.sum_flatten, Function.comp_def]

end Records

/-- The insert directory of `dailySegment` holds field `100`, with one binlog of `10` bytes; its
delta directory is empty. -/
def dailyListingEnv : Env :=
  { Env.nominal with
    listWithPrefix := fun _ _ _ path =>
      if path = "files/insert_log/12/2/7/" then ([("files/insert_log/12/2/7/100/", 0)], none)
      else if path = "files/insert_log/12/2/7/100/" then
        ([("files/insert_log/12/2/7/100/1", 10)], none)
      else ([], none) }

theorem fillSegmentBackupInfo_records_daily :
    ListsFields ⟨dailyConfig, dailyListingEnv, none⟩
      (segmentLogPath (milvusRootPrefix dailyConfig.milvusRootPath) "insert_log" dailySegment)
      [(100, [("files/insert_log/12/2/7/100/1", 10)])] ∧
    [(100, [("files/insert_log/12/2/7/100/1", 10)])] ≠ ([] : List (Int × List (String × Int))) ∧
    ListsFields ⟨dailyConfig, dailyListingEnv, none⟩
      (segmentLogPath (milvusRootPrefix dailyConfig.milvusRootPath) "delta_log" dailySegment) [] ∧
    Triple (fun w => w.meta = dailyMeta) (fillSegmentBackupInfo .engine dailySegment)
      (fun r w => r = none ∧ w.meta.getSegment 7 = (dailyMeta.getSegment 7).map fun seg =>
        { seg with
          binlogs := [FieldBinlog.ofListing 100 [("files/insert_log/12/2/7/100/1", 10)]]
          deltalogs := [{ fieldID := 0 }]
          size := 10 })
      ⟨dailyConfig, dailyListingEnv, none⟩ :=
  have hins : ListsFields ⟨dailyConfig, dailyListingEnv, none⟩
      (segmentLogPath (milvusRootPrefix dailyConfig.milvusRootPath) "insert_log" dailySegment)
      [(100, [("files/insert_log/12/2/7/100/1", 10)])] :=
    ⟨[("files/insert_log/12/2/7/100/", 0)], fun _ _ => rfl, rfl,
      by simp only [List.mem_singleton, forall_eq]; exact ⟨by decide, by decide, fun _ _ => rfl⟩⟩
  have hdel : ListsFields ⟨dailyConfig, dailyListingEnv, none⟩
      (segmentLogPath (milvusRootPrefix dailyConfig.milvusRootPath) "delta_log" dailySegment) [] :=
    ⟨[], fun _ _ => rfl, rfl, by simp⟩
  ⟨hins, by simp, hdel, fillSegmentBackupInfo_records .engine dailySegment dailyMeta _ [] hins
    (by simp) hdel⟩

/-- The insert directory of `dailySegment` holds field `100`, with two binlogs of `2^62` bytes;
its delta directory is empty. -/
def hugeListingEnv : Env :=
  { Env.nominal with
    listWithPrefix := fun _ _ _ path =>
      if path = "files/insert_log/12/2/7/" then ([("files/insert_log/12/2/7/100/", 0)], none)
      else if path = "files/insert_log/12/2/7/100/" then
        ([("files/insert_log/12/2/7/100/1", 2 ^ 62), ("files/insert_log/12/2/7/100/2", 2 ^ 62)], none)
      else ([], none) }

/-- Two objects of `2^62` bytes: the fill returns `nil` and records the size `-2^63` for the
`2^63` bytes it listed. -/
theorem fillSegmentBackupInfo_size_wraps :
    (fillSegmentBackupInfo .engine dailySegment ⟨dailyConfig, hugeListingEnv, none⟩
      { meta := dailyMeta }).1 = none ∧
    ((fillSegmentBackupInfo .engine dailySegment ⟨dailyConfig, hugeListingEnv, none⟩
      { meta := dailyMeta }).2.meta.getSegment 7).map SegmentBackupInfo.size = some (-2 ^ 63) := by
  decide

end MilvusBackup
