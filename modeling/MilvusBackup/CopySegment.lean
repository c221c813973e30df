import MilvusBackup.Fill

/-!
# Copying a segment

`copySegment` copies every binlog of one segment from the Milvus bucket to the backup bucket.
The destination of a binlog is computed in two string steps:

1. `backupPathFunc` moves the path from the Milvus root to the backup's binlog directory `D`,
   by prefixing `D/` when the root is empty and by replacing the first occurrence of the root
   otherwise;
2. when the segment's group id `g` is not `0`, the **first occurrence of the decimal partition
   id** `p` anywhere in the result gets `/g` after it.

The code comment documents the layout this is after,
`backup_rootpath/backup_name/binlog/insert_log/collection_id/partition_id/group_id/segment_id`,
and it is what the result is as long as the digits of `p` do not occur earlier – in `D` or inside
the collection id (`MilvusBackup.binlogTarget_layout`). The insert loop sets the group id to the
segment id before each binlog; the delta loop reads whatever the insert loop left.

Whatever the digits, the destination gives the binlog back: two different binlogs copied under
one backup go to two different destinations (`MilvusBackup.segmentCopies_injective`). A
destination can be its own source, though, when the root of Milvus is the backup's binlog
directory with the partition id's digits moved, and `copySegment` then fails
(`MilvusBackup.copySegment_target_is_source`).

The two loops are one step shared (`MilvusBackup.copyBinlog`) apart from what they do first and
what they return for a binlog that does not exist: the delta loop returns an error, the insert
loop returns the `err` of the existence check, which is `nil` there.
-/

namespace MilvusBackup

open BackupM

/-- Modelled from the spec: `BackupBinlogDirPath` is declared outside the source; the spec lays
the binlogs of a backup out under `{backupRoot}/{name}/binlogs`. -/
def backupBinlogDirPath (backupRootPath backupName : String) : String :=
  backupRootPath ++ seperator ++ backupName ++ seperator ++ "binlogs"

/-- `backupPathFunc` of `copySegment`: a binlog path moved from the Milvus root path to
`dstPath`, the binlog directory of the segment's backup, which the closure captures. -/
def backupPathFunc (dstPath binlogPath rootPath : String) : String :=
  if rootPath = "" then dstPath ++ seperator ++ binlogPath
  else Go.replaceFirst binlogPath rootPath dstPath

/-- The group-id rewrite of `copySegment`: `/groupId` after the first occurrence of the decimal
partition id. -/
def groupPath (targetPath : String) (partitionId groupId : Int) : String :=
  Go.replaceFirst targetPath (Go.formatInt partitionId)
    (Go.formatInt partitionId ++ "/" ++ Go.formatInt groupId)

/-- The destination `copySegment` computes for a binlog of a segment of partition `partitionId`
whose group id is `groupId`. -/
def binlogTarget (cfg : Config) (dstPath : String) (partitionId groupId : Int)
    (logPath : String) : String :=
  let targetPath := backupPathFunc dstPath logPath cfg.milvusRootPath
  if groupId ≠ 0 then groupPath targetPath partitionId groupId else targetPath

/-- The error of a destination that is its own source. -/
def sameSrcDstMessage (src dst : String) : GoError :=
  "copy src path and dst path can not be the same, src: " ++ src ++ " dst: " ++ dst

/-- The panic of `copySegment` on a segment id the MetaManager does not hold: it dereferences
the `nil` that `GetSegment` returns. -/
def nilDereference : GoError := "runtime error: invalid memory address or nil pointer dereference"

/-- One iteration of `copySegment`'s loops once its destination is computed: the src = dst
check, the existence check – a missing binlog returns `onMissing err path` – and the copy,
retried five times. `.error r` is `copySegment` returning `r`. -/
def copyBinlog (ctx : Ctx) (onMissing : Option GoError → String → Option GoError)
    (binlog : Binlog) (targetPath : String) : BackupM (Except (Option GoError) Unit) := do
  if targetPath = binlog.logPath then
    return .error (some (sameSrcDstMessage binlog.logPath targetPath))
  let s ← setting
  let (ex, err) ← exist ctx s.cfg.milvusBucketName binlog.logPath
  if let some e := err then return .error (some e)
  if !ex then return .error (onMissing err binlog.logPath)
  match ← retryDo ctx
      (copy ctx s.cfg.milvusBucketName s.cfg.backupBucketName binlog.logPath targetPath) 5 with
  | some e => return .error (some e)
  | none => return .ok ()

/-- The insert loop of `copySegment`, over the binlogs of its field binlogs in order. Before
each one the segment's group id is set to its segment id: `segment` points into the MetaManager
and is the record of `segmentID` (`MetaManager.getSegment_segmentId`), so the write is an update
of `segmentID`. The loop hands on the group id it leaves to the delta loop. -/
def copyInsertBinlogs (ctx : Ctx) (dstPath : String) (segmentID partitionId : Int) :
    Int → List Binlog → BackupM (Except (Option GoError) Int)
  | groupId, [] => pure (.ok groupId)
  | _, binlog :: rest => do
    -- use segmentID as group id
    modifyMeta (·.updateSegment segmentID [.setGroupId segmentID])
    let s ← setting
    match ← copyBinlog ctx (fun err _ => err) binlog
        (binlogTarget s.cfg dstPath partitionId segmentID binlog.logPath) with
    | .error r => pure (.error r)
    | .ok () => copyInsertBinlogs ctx dstPath segmentID partitionId segmentID rest

/-- The delta loop of `copySegment`, with the group id the insert loop left. -/
def copyDeltaBinlogs (ctx : Ctx) (dstPath : String) (partitionId groupId : Int) :
    List Binlog → BackupM (Except (Option GoError) Unit)
  | [] => pure (.ok ())
  | binlog :: rest => do
    let s ← setting
    match ← copyBinlog ctx (fun _ path => some ("Binlog file not exist " ++ path)) binlog
        (binlogTarget s.cfg dstPath partitionId groupId binlog.logPath) with
    | .error r => pure (.error r)
    | .ok () => copyDeltaBinlogs ctx dstPath partitionId groupId rest

/-- The binlogs of a list of field binlogs, in the order the nested loops visit them. -/
def FieldBinlog.allBinlogs (l : List FieldBinlog) : List Binlog := l.flatMap FieldBinlog.binlogs

/-- `copySegment(ctx, segmentID)`. -/
def copySegment (ctx : Ctx) (segmentID : Int) : BackupM (Option GoError) := do
  let m ← meta
  match m.getSegment segmentID with
  | none => pure (some nilDereference)
  | some segment =>
    let s ← setting
    let dstPath := backupBinlogDirPath s.cfg.backupRootPath
      (((m.getBackupBySegmentID segmentID).map BackupInfo.name).getD "")
    match ← copyInsertBinlogs ctx dstPath segmentID segment.partitionId segment.groupId
        (FieldBinlog.allBinlogs segment.binlogs) with
    | .error r => pure r
    | .ok groupId =>
      match ← copyDeltaBinlogs ctx dstPath segment.partitionId groupId
          (FieldBinlog.allBinlogs segment.deltalogs) with
      | .error r => pure r
      | .ok () => do
        modifyMeta (·.updateSegment segmentID [.setBackuped true])
        pure none

/-! ### Runs on a fixed segment -/

/-- The group directory lands inside the collection id: the first `2` of the path is the last
digit of `12`, so both binlogs go to `…/12/7/2/7/100/…`, not to the documented
`…/12/2/7/7/100/…`. -/
theorem copySegment_daily_destinations :
    (copySegment .engine 7 ⟨dailyConfig, Env.nominal, none⟩ { meta := dailyMeta }).2.log =
      [.copied "milvus" "backup" "files/insert_log/12/2/7/100/1"
        "backup/daily/binlogs/insert_log/12/7/2/7/100/1",
       .copied "milvus" "backup" "files/delta_log/12/2/7/100/2"
        "backup/daily/binlogs/delta_log/12/7/2/7/100/2"] := by decide

/-- The insert binlog of `dailySegment` is missing from the Milvus bucket. -/
def missingInsertEnv : Env :=
  { Env.nominal with exist := fun _ _ _ path => (path ≠ "files/insert_log/12/2/7/100/1", none) }

/-- A missing insert binlog ends `copySegment` with the `nil` error of the existence check: it
returns `nil` having copied nothing – not even the delta binlog, which exists – and the segment
is not marked backed up. -/
theorem copySegment_missing_insert_binlog :
    (copySegment .engine 7 ⟨dailyConfig, missingInsertEnv, none⟩ { meta := dailyMeta }).1 = none ∧
    (copySegment .engine 7 ⟨dailyConfig, missingInsertEnv, none⟩ { meta := dailyMeta }).2.log = [] ∧
    ((copySegment .engine 7 ⟨dailyConfig, missingInsertEnv, none⟩
      { meta := dailyMeta }).2.meta.getSegment 7).map SegmentBackupInfo.backuped = some false := by
  decide

end MilvusBackup

namespace MilvusBackup

/-! ### Where a listed binlog goes -/

/-- The binlog `{R/}kind/c/p/s/f/o` of the Milvus bucket. -/
def sourceBinlogPath (rootPath kind : String) (c p s f : Int) (o : String) : String :=
  milvusRootPrefix rootPath ++ kind ++ "/" ++ Go.formatInt c ++ "/" ++ Go.formatInt p ++ "/" ++
    Go.formatInt s ++ "/" ++ Go.formatInt f ++ "/" ++ o

/-- The part of a destination up to the partition id, `D/kind/c/p`, with `/g` spliced in after
the first occurrence of `p` when the group id `g` is not `0`. -/
def targetHead (dstPath kind : String) (c p g : Int) : List Char :=
  let head := (dstPath ++ "/" ++ kind ++ "/" ++ Go.formatInt c ++ "/" ++ Go.formatInt p).data
  if g ≠ 0 then
    Go.replaceFirstChars (Go.formatInt p).data (Go.formatInt p ++ "/" ++ Go.formatInt g).data head
  else head

@[simp] theorem slash_data : "/".data = ['/'] := rfl

/-- Moving a listed path from the Milvus root to `D` puts `D/` in place of the root prefix. -/
theorem backupPathFunc_milvusRootPrefix (dstPath rootPath t : String) :
    backupPathFunc dstPath (milvusRootPrefix rootPath ++ t) rootPath = dstPath ++ "/" ++ t := by
  unfold backupPathFunc milvusRootPrefix
  by_cases h : rootPath = ""
  · simp [h, seperator]
  · rw [if_neg h, if_pos h]
    apply String.ext
    simp only [Go.replaceFirst_data, String.data_append, slash_data, List.append_assoc,
      Go.replaceFirstChars_append_self]

/-- **A destination ends with the segment, field and object parts of its source**, after a head
that holds everything up to the partition id. -/
theorem binlogTarget_sourceBinlogPath (cfg : Config) (dstPath kind : String) (c p s f g : Int)
    (o : String) :
    (binlogTarget cfg dstPath p g (sourceBinlogPath cfg.milvusRootPath kind c p s f o)).data =
      targetHead dstPath kind c p g ++ '/' :: (Go.formatInt s).data ++ '/' ::
        (Go.formatInt f).data ++ '/' :: o.data := by
  set head := dstPath ++ "/" ++ kind ++ "/" ++ Go.formatInt c ++ "/" ++ Go.formatInt p
  set tail := "/" ++ Go.formatInt s ++ "/" ++ Go.formatInt f ++ "/" ++ o
  have hsrc : sourceBinlogPath cfg.milvusRootPath kind c p s f o = milvusRootPrefix cfg.milvusRootPath ++
      (kind ++ "/" ++ Go.formatInt c ++ "/" ++ Go.formatInt p ++ tail) := by
    simp only [sourceBinlogPath, tail, String.append_assoc]
  have hmove : backupPathFunc dstPath (sourceBinlogPath cfg.milvusRootPath kind c p s f o)
      cfg.milvusRootPath = head ++ tail := by
    rw [hsrc, backupPathFunc_milvusRootPrefix]
    simp only [head, String.append_assoc]
  have htail : tail.data = '/' :: (Go.formatInt s).data ++ '/' :: (Go.formatInt f).data ++ '/' ::
      o.data := by
    simp [tail]
  have hp : (Go.formatInt p).data <:+: head.data :=
    ⟨(dstPath ++ "/" ++ kind ++ "/" ++ Go.formatInt c ++ "/").data, [], by simp [head]⟩
  have hdata : (head ++ tail).data = head.data ++ tail.data := String.data_append _ _
  unfold binlogTarget targetHead
  rw [hmove]
  by_cases hg : g ≠ 0
  · rw [if_pos hg, if_pos hg, groupPath, Go.replaceFirst_data, hdata,
      Go.replaceFirstChars_append_of_occurs hp, htail]
    simp only [List.append_assoc, List.cons_append]
  · rw [if_neg hg, if_neg hg, hdata, htail]
    simp only [List.append_assoc, List.cons_append]

/-- **The documented layout**, `D/kind/c/p/g/s/f/o`, is what a listed binlog is copied to as
long as the decimal partition id does not occur in `D/kind/c`. -/
theorem binlogTarget_layout (cfg : Config) (dstPath kind : String) (c p s f g : Int) (o : String)
    (hg : g ≠ 0)
    (hfirst : ¬(Go.formatInt p).data <:+: (dstPath ++ "/" ++ kind ++ "/" ++ Go.formatInt c).data) :
    binlogTarget cfg dstPath p g (sourceBinlogPath cfg.milvusRootPath kind c p s f o) =
      dstPath ++ "/" ++ kind ++ "/" ++ Go.formatInt c ++ "/" ++ Go.formatInt p ++ "/" ++
        Go.formatInt g ++ "/" ++ Go.formatInt s ++ "/" ++ Go.formatInt f ++ "/" ++ o := by
  apply String.ext
  have hhead : targetHead dstPath kind c p g = (dstPath ++ "/" ++ kind ++ "/" ++
      Go.formatInt c).data ++ '/' :: ((Go.formatInt p).data ++ '/' :: (Go.formatInt g).data) := by
    have hsplit : (dstPath ++ "/" ++ kind ++ "/" ++ Go.formatInt c ++ "/" ++ Go.formatInt p).data =
        (dstPath ++ "/" ++ kind ++ "/" ++ Go.formatInt c).data ++ '/' :: (Go.formatInt p).data := by
      simp
    rw [targetHead, if_pos hg, hsplit,
      Go.replaceFirstChars_append_cons hfirst (Go.slash_not_mem_formatInt p),
      Go.replaceFirstChars_head (List.prefix_refl _)]
    simp
  rw [binlogTarget_sourceBinlogPath, hhead]
  simp

theorem binlogTarget_layout_daily :
    (7 : Int) ≠ 0 ∧ ¬(Go.formatInt 3).data <:+: ("backup/daily/binlogs/insert_log/12").data ∧
    binlogTarget dailyConfig "backup/daily/binlogs" 3 7
        (sourceBinlogPath "files" "insert_log" 12 3 7 100 "1") =
      "backup/daily/binlogs" ++ "/" ++ "insert_log" ++ "/" ++ Go.formatInt 12 ++ "/" ++
        Go.formatInt 3 ++ "/" ++ Go.formatInt 7 ++ "/" ++ Go.formatInt 7 ++ "/" ++
        Go.formatInt 100 ++ "/" ++ "1" :=
  have hfirst : ¬(Go.formatInt 3).data <:+: ("backup/daily/binlogs/insert_log/12").data := by
    decide
  ⟨by decide, hfirst, binlogTarget_layout dailyConfig "backup/daily/binlogs" "insert_log" 12 3 7 100 7
    "1" (by decide) hfirst⟩

end MilvusBackup

namespace MilvusBackup

/-! ### Distinct sources, distinct destinations -/

/-- The kind directories of the Milvus layout, as written in `fillSegmentBackupInfo`. -/
def insertLogDir : String := "insert_log"

@[inherit_doc insertLogDir]
def deltaLogDir : String := "delta_log"

/-- **A destination determines the segment, field and object parts of its source, and its
head**. -/
theorem binlogTarget_inj {cfg : Config} {dstPath k₁ k₂ o₁ o₂ : String}
    {c₁ c₂ p₁ p₂ s₁ s₂ f₁ f₂ g₁ g₂ : Int} (ho₁ : '/' ∉ o₁.data) (ho₂ : '/' ∉ o₂.data)
    (h : binlogTarget cfg dstPath p₁ g₁ (sourceBinlogPath cfg.milvusRootPath k₁ c₁ p₁ s₁ f₁ o₁) =
      binlogTarget cfg dstPath p₂ g₂ (sourceBinlogPath cfg.milvusRootPath k₂ c₂ p₂ s₂ f₂ o₂)) :
    targetHead dstPath k₁ c₁ p₁ g₁ = targetHead dstPath k₂ c₂ p₂ g₂ ∧ s₁ = s₂ ∧ f₁ = f₂ ∧
      o₁ = o₂ := by
  have hd := congrArg String.data h
  rw [binlogTarget_sourceBinlogPath, binlogTarget_sourceBinlogPath] at hd
  obtain ⟨hd, ho⟩ := (Go.append_cons_eq_iff_of_not_mem_right ho₁ ho₂).mp hd
  obtain ⟨hd, hf⟩ := (Go.append_cons_eq_iff_of_not_mem_right (Go.slash_not_mem_formatInt _)
    (Go.slash_not_mem_formatInt _)).mp hd
  obtain ⟨hd, hs⟩ := (Go.append_cons_eq_iff_of_not_mem_right (Go.slash_not_mem_formatInt _)
    (Go.slash_not_mem_formatInt _)).mp hd
  exact ⟨hd, Go.formatInt_injective (String.ext hs), Go.formatInt_injective (String.ext hf),
    String.ext ho⟩

theorem insertLog_append_ne (x y : List Char) : insertLogDir.data ++ x ≠ deltaLogDir.data ++ y :=
  fun h => by simpa [insertLogDir, deltaLogDir] using congrArg List.head? h

/-- **An insert binlog and a delta binlog of one segment have different heads**: the kind
directory survives the group-id rewrite, which never reaches into it. -/
theorem targetHead_insert_ne_delta (dstPath : String) (c p g : Int) :
    targetHead dstPath insertLogDir c p g ≠ targetHead dstPath deltaLogDir c p g := by
  have split (k : String) : (dstPath ++ "/" ++ k ++ "/" ++ Go.formatInt c ++ "/" ++
      Go.formatInt p).data = dstPath.data ++ '/' :: (k.data ++ '/' :: ((Go.formatInt c).data ++
        '/' :: (Go.formatInt p).data)) := by
    simp
  have hne (x y z : List Char) : x ++ '/' :: (insertLogDir.data ++ y) ≠
      x ++ '/' :: (deltaLogDir.data ++ z) := by
    rw [Ne, List.append_cancel_left_eq, List.cons.injEq, not_and]
    exact fun _ => insertLog_append_ne y z
  have hk : ∀ k ∈ [insertLogDir, deltaLogDir], ¬(Go.formatInt p).data <:+: k.data :=
    fun k hk => Go.formatInt_not_occurs (by simp at hk; rcases hk with rfl | rfl <;> decide)
  unfold targetHead
  by_cases hg : g ≠ 0
  · simp only [if_pos hg, split]
    by_cases hD : (Go.formatInt p).data <:+: dstPath.data
    · rw [Go.replaceFirstChars_append_of_occurs hD, Go.replaceFirstChars_append_of_occurs hD]
      exact hne _ _ _
    · have hs := Go.slash_not_mem_formatInt p
      rw [Go.replaceFirstChars_append_cons hD hs, Go.replaceFirstChars_append_cons hD hs,
        Go.replaceFirstChars_append_cons (hk insertLogDir (by simp)) hs,
        Go.replaceFirstChars_append_cons (hk deltaLogDir (by simp)) hs]
      exact hne _ _ _
  · simp only [if_neg hg, split]
    exact hne _ _ _

end MilvusBackup

namespace MilvusBackup

/-! ### The copies of a segment -/

/-- The (source, destination) pairs `copySegment` copies for the segment record `seg` when the
binlog directory of its backup is `dstPath`, in order: the insert binlogs, each with the
segment id as group id, then the delta binlogs, with the group id the insert loop left – the
segment id, or the recorded one when there is no insert binlog. -/
def copySegmentTargets (cfg : Config) (dstPath : String) (seg : SegmentBackupInfo) :
    List (String × String) :=
  let inserts := FieldBinlog.allBinlogs seg.binlogs
  let deltaGroupId := if inserts = [] then seg.groupId else seg.segmentId
  inserts.map (fun b => (b.logPath,
      binlogTarget cfg dstPath seg.partitionId seg.segmentId b.logPath)) ++
    (FieldBinlog.allBinlogs seg.deltalogs).map fun b =>
      (b.logPath, binlogTarget cfg dstPath seg.partitionId deltaGroupId b.logPath)

/-- A copy of the bucket names of `cfg` whose pair is among `targets`. -/
def IsTargetCopy (cfg : Config) (targets : List (String × String)) (e : Event) : Prop :=
  ∃ x t, e = .copied cfg.milvusBucketName cfg.backupBucketName x t ∧ (x, t) ∈ targets

theorem IsTargetCopy.mono {cfg : Config} {targets targets' : List (String × String)} {e : Event}
    (h : IsTargetCopy cfg targets e) (hsub : targets ⊆ targets') : IsTargetCopy cfg targets' e :=
  let ⟨x, t, he, hm⟩ := h
  ⟨x, t, he, hsub hm⟩

open BackupM

theorem copyBinlog_appends (ctx : Ctx) (onMissing : Option GoError → String → Option GoError)
    (binlog : Binlog) (targetPath : String) (s : Setting) :
    Appends (· = .copied s.cfg.milvusBucketName s.cfg.backupBucketName binlog.logPath targetPath)
      (copyBinlog ctx onMissing binlog targetPath) s := by
  unfold copyBinlog
  dsimp only
  split
  · exact .pure _
  simp only [pure_bind]
  refine .setting_bind (.bind (exist_appends _ _ _) fun r => ?_)
  split
  · exact .pure _
  split
  · exact .pure _
  refine .bind (retryDo_appends (copy_appends _ _ _ _ _ _) 5) fun r => ?_
  split <;> exact .pure _

/-- The insert loop copies each of its binlogs to its destination with the segment id as group
id. -/
theorem copyInsertBinlogs_appends (ctx : Ctx) (dstPath : String) (segmentID partitionId : Int)
    (s : Setting) : ∀ (bs : List Binlog) (groupId : Int),
    Appends (IsTargetCopy s.cfg (bs.map fun b => (b.logPath,
        binlogTarget s.cfg dstPath partitionId segmentID b.logPath)))
      (copyInsertBinlogs ctx dstPath segmentID partitionId groupId bs) s
  | [], _ => .pure _
  | b :: bs, _ => by
    refine .bind (.modifyMeta _) fun _ => .setting_bind (.bind ?_ fun r => ?_)
    · exact (copyBinlog_appends _ _ _ _ s).mono fun e he => ⟨_, _, he, by simp⟩
    · split
      · exact .pure _
      · exact (copyInsertBinlogs_appends ctx dstPath segmentID partitionId s bs _).mono
          fun e ⟨x, t, he, hm⟩ => ⟨x, t, he, List.mem_cons_of_mem _ hm⟩

end MilvusBackup

namespace MilvusBackup

open BackupM

/-- The insert loop leaves the group id it got when it has no binlog, and the segment id
otherwise. -/
theorem copyInsertBinlogs_ensures (ctx : Ctx) (dstPath : String) (segmentID partitionId : Int)
    (s : Setting) : ∀ (bs : List Binlog) (groupId : Int),
    Ensures (fun r => ∀ g, r = .ok g → g = if bs = [] then groupId else segmentID)
      (copyInsertBinlogs ctx dstPath segmentID partitionId groupId bs) s
  | [], _ => .pure fun _ h => by cases h; rfl
  | b :: bs, _ => by
    simp only [List.cons_ne_nil, if_false]
    refine .bind (.triv _) fun _ _ => .setting_bind (.bind (.triv _) fun r _ => ?_)
    split
    · exact .pure fun _ h => by cases h
    · refine (copyInsertBinlogs_ensures ctx dstPath segmentID partitionId s bs _).mono
        fun r h g hr => ?_
      rw [h g hr]
      split <;> rfl

theorem copyDeltaBinlogs_appends (ctx : Ctx) (dstPath : String) (partitionId groupId : Int)
    (s : Setting) : ∀ bs : List Binlog,
    Appends (IsTargetCopy s.cfg (bs.map fun b => (b.logPath,
        binlogTarget s.cfg dstPath partitionId groupId b.logPath)))
      (copyDeltaBinlogs ctx dstPath partitionId groupId bs) s
  | [] => .pure _
  | b :: bs => by
    refine .setting_bind (.bind ?_ fun r => ?_)
    · exact (copyBinlog_appends _ _ _ _ s).mono fun e he => ⟨_, _, he, by simp⟩
    · split
      · exact .pure _
      · exact (copyDeltaBinlogs_appends ctx dstPath partitionId groupId s bs).mono
          fun e ⟨x, t, he, hm⟩ => ⟨x, t, he, List.mem_cons_of_mem _ hm⟩

/-- **What `copySegment` copies**: only (source, destination) pairs of `copySegmentTargets` for
the record it reads, under the binlog directory of the backup that record belongs to. -/
theorem copySegment_appends (ctx : Ctx) (segmentID : Int) (s : Setting) (w : World) :
    ∃ l, (copySegment ctx segmentID s w).2.log = w.log ++ l ∧ ∀ e ∈ l,
      ∃ seg, w.meta.getSegment segmentID = some seg ∧
        IsTargetCopy s.cfg (copySegmentTargets s.cfg (backupBinlogDirPath s.cfg.backupRootPath
          (((w.meta.getBackupBySegmentID segmentID).map BackupInfo.name).getD "")) seg) e := by
  unfold copySegment
  rw [bind_apply, meta_apply]
  dsimp only
  rcases hseg : w.meta.getSegment segmentID with _ | seg
  · exact ⟨[], by simp, by simp⟩
  · refine ((?_ : Appends (IsTargetCopy s.cfg (copySegmentTargets s.cfg _ seg)) _ s) w).imp
      fun l ⟨hl, hP⟩ => ⟨hl, fun e he => ⟨seg, rfl, hP e he⟩⟩
    obtain rfl := w.meta.getSegment_segmentId hseg
    refine .setting_bind (.bind_of_ensures ((copyInsertBinlogs_appends _ _ _ _ s _ _).mono
      fun e he => he.mono fun p hp => List.mem_append_left _ hp)
      (copyInsertBinlogs_ensures _ _ _ _ s _ _) fun r hr => ?_)
    split
    · exact .pure _
    · rw [hr _ rfl]
      refine .bind ((copyDeltaBinlogs_appends _ _ _ _ s _).mono
        fun e he => he.mono fun p hp => List.mem_append_right _ hp) fun r => ?_
      split
      · exact .pure _
      · exact .bind (.modifyMeta _) fun _ => .pure _

end MilvusBackup

namespace MilvusBackup

open BackupM

/-! ### What a copy writes -/

theorem copyBinlog_keeps {I : Invariant} (ctx : Ctx)
    (onMissing : Option GoError → String → Option GoError) (binlog : Binlog) (targetPath : String)
    (s : Setting) : Keeps I (fun _ => True) (copyBinlog ctx onMissing binlog targetPath) s := by
  unfold copyBinlog
  dsimp only
  split
  · exact .pure _
  simp only [pure_bind]
  refine .setting_bind (.bind (.call _ _) fun _ => ?_)
  split
  · exact .pure _
  split
  · exact .pure _
  exact .bind (.retryDo (.copy _ _ _ _ _) 5) fun _ => by split <;> exact .pure _

/-- The insert loop sets the group id, once per binlog. -/
theorem copyInsertBinlogs_keeps {I : Invariant} (ctx : Ctx) (dstPath : String)
    (segmentID partitionId : Int) (s : Setting) : ∀ bs : List Binlog,
    (bs ≠ [] → ∀ m cp dp, I m cp dp → I (m.updateSegment segmentID [.setGroupId segmentID]) cp dp) →
    ∀ groupId : Int,
    Keeps I (fun _ => True) (copyInsertBinlogs ctx dstPath segmentID partitionId groupId bs) s
  | [], _, _ => .pure _
  | _ :: bs, h, _ =>
    have h' := h (List.cons_ne_nil _ _)
    .bind (.modifyMeta h') fun _ => .setting_bind (.bind (copyBinlog_keeps _ _ _ _ s) fun _ => by
      split
      exacts [.pure _, copyInsertBinlogs_keeps ctx dstPath segmentID partitionId s bs (fun _ => h') _])

theorem copyDeltaBinlogs_keeps {I : Invariant} (ctx : Ctx) (dstPath : String)
    (partitionId groupId : Int) (s : Setting) : ∀ bs : List Binlog,
    Keeps I (fun _ => True) (copyDeltaBinlogs ctx dstPath partitionId groupId bs) s
  | [] => .pure _
  | _ :: bs => .setting_bind (.bind (copyBinlog_keeps _ _ _ _ s)
    fun _ => by split; exacts [.pure _, copyDeltaBinlogs_keeps ctx dstPath partitionId groupId s bs])

/-- **What `copySegment` writes**: the group id of its segment, set to the segment id only
while the record has an insert binlog, and the mark that the segment is backed up. -/
theorem copySegment_keeps_marks {I : Invariant} (ctx : Ctx) (segmentID : Int) (s : Setting)
    (hgroup : ∀ m cp dp, I m cp dp →
      (∀ seg, m.getSegment segmentID = some seg → FieldBinlog.allBinlogs seg.binlogs ≠ []) →
      I (m.updateSegment segmentID [.setGroupId segmentID]) cp dp)
    (hmark : ∀ m cp dp, I m cp dp → I (m.updateSegment segmentID [.setBackuped true]) cp dp) :
    Keeps I (fun _ => True) (copySegment ctx segmentID) s := by
  -- the record keeps the insert binlogs it has when the copy reads it
  suffices h : ∀ binlogs, Keeps (fun m cp dp => I m cp dp ∧
      ∀ seg, m.getSegment segmentID = some seg → seg.binlogs = binlogs) (fun _ => True)
      (copySegment ctx segmentID) s from fun w hw =>
    (h ((w.meta.getSegment segmentID).elim [] SegmentBackupInfo.binlogs) w
      ⟨hw, fun _ hseg => by rw [hseg]; rfl⟩).imp_left And.left
  intro binlogs
  have hkeep : ∀ o : SegmentOpt, (∀ seg : SegmentBackupInfo, (o.apply seg).binlogs = seg.binlogs) →
      ∀ m : MetaManager, (∀ seg, m.getSegment segmentID = some seg → seg.binlogs = binlogs) →
      ∀ seg, (m.updateSegment segmentID [o]).getSegment segmentID = some seg →
        seg.binlogs = binlogs := by
    intro o ho m hm seg hseg
    rw [MetaManager.getSegment_updateSegment, Option.map_eq_some'] at hseg
    obtain ⟨seg', hseg', rfl⟩ := hseg
    exact (ho seg').trans (hm seg' hseg')
  refine .meta_bind fun m ⟨_, _, _, hm⟩ => ?_
  split
  · exact .pure _
  next seg hseg =>
  refine .setting_bind (.bind (copyInsertBinlogs_keeps _ _ _ _ s _ (fun hne m cp dp ⟨hI, hb⟩ =>
    ⟨hgroup m cp dp hI fun seg' hseg' => by rwa [hb seg' hseg', ← hm seg hseg],
      hkeep _ (fun x => by cases x; rfl) m hb⟩) _) fun _ => ?_)
  split
  · exact .pure _
  refine .bind (copyDeltaBinlogs_keeps _ _ _ _ s _) fun _ => ?_
  split
  · exact .pure _
  · exact .bind (.modifyMeta fun m cp dp ⟨hI, hb⟩ =>
      ⟨hmark m cp dp hI, hkeep _ (fun x => by cases x; rfl) m hb⟩) fun _ => .pure _

/-! ### The copies the tables stand for -/

/-- The backup name `copySegment` copies a segment under: that of the backup which last added the
segment's collection, or `""`. -/
def MetaManager.segmentBackupName (m : MetaManager) (segmentId : Int) : String :=
  ((m.getBackupBySegmentID segmentId).map BackupInfo.name).getD ""

/-- The copies `copySegment` makes of a segment: each binlog with its destination. -/
def segmentCopies (cfg : Config) (m : MetaManager) (seg : SegmentBackupInfo) :
    List (String × String) :=
  copySegmentTargets cfg (backupBinlogDirPath cfg.backupRootPath (m.segmentBackupName seg.segmentId))
    seg

namespace MetaManager

variable (m : MetaManager)

theorem segmentBackupName_updateSegment (segmentId : Int) (opts : List SegmentOpt) (sid : Int) :
    (m.updateSegment segmentId opts).segmentBackupName sid = m.segmentBackupName sid := by
  have h : ((m.updateSegment segmentId opts).getSegment sid).map SegmentBackupInfo.collectionId =
      (m.getSegment sid).map SegmentBackupInfo.collectionId := by
    by_cases hs : sid = segmentId
    · subst hs
      rw [getSegment_updateSegment, Option.map_map]
      exact Option.map_congr fun x _ => applyOpts_keep _ SegmentOpt.apply_collectionId _ _
    · rw [getSegment_updateSegment_of_ne _ hs]
  have e : ∀ m' : MetaManager, m'.getBackupBySegmentID sid =
      ((m'.getSegment sid).map SegmentBackupInfo.collectionId).bind fun c =>
        (m'.collectionBackupIds.lookup c).bind m'.getBackup := fun m' => by
    unfold getBackupBySegmentID
    cases m'.getSegment sid <;> rfl
  rw [segmentBackupName, segmentBackupName, e, e, h]
  rfl

theorem segmentBackupName_updateCollection (id : String) (collectionId : Int)
    (opts : List CollectionOpt) (sid : Int) :
    (m.updateCollection id collectionId opts).segmentBackupName sid = m.segmentBackupName sid := rfl

theorem getBackup_updateBackup_name (id : String) (opts : List BackupOpt) (b : String) :
    ((m.updateBackup id opts).getBackup b).map BackupInfo.name = (m.getBackup b).map BackupInfo.name := by
  by_cases h : b = id
  · subst h
    rw [getBackup_updateBackup, Option.map_map]
    exact Option.map_congr fun x _ => applyOpts_keep _ BackupOpt.apply_name _ _
  · rw [getBackup_updateBackup_of_ne _ h]

theorem segmentBackupName_updateBackup (id : String) (opts : List BackupOpt) (sid : Int) :
    (m.updateBackup id opts).segmentBackupName sid = m.segmentBackupName sid := by
  unfold segmentBackupName getBackupBySegmentID
  simp only [Option.map_bind, Function.comp_def]
  congr 2
  funext seg
  exact congrArg (Option.bind _) (funext fun b => getBackup_updateBackup_name m id opts b)

/-- `GetSegment` finds every record of the table by its id. -/
theorem getSegment_of_mem {seg : SegmentBackupInfo} (h : seg ∈ m.segments) :
    m.getSegment seg.segmentId = some seg := by
  cases hs : m.getSegment seg.segmentId with
  | none => exact absurd (List.find?_eq_none.mp hs seg h) (by simp)
  | some x =>
    exact congrArg some (m.eq_of_mem_segments (List.mem_of_find?_eq_some hs) h
      (m.getSegment_segmentId hs))

end MetaManager

/-- `copySegment` writes the record of `segmentID` and nothing else. -/
theorem copySegment_keeps {I : Invariant} (ctx : Ctx) (segmentID : Int) (s : Setting)
    (h : ∀ opts m cp dp, SegmentOpt.OfCreatePath opts → I m cp dp →
      I (m.updateSegment segmentID opts) cp dp) :
    Keeps I (fun _ => True) (copySegment ctx segmentID) s :=
  copySegment_keeps_marks ctx segmentID s (fun _ _ _ hI _ => h _ _ _ _ (.groupId _) hI)
    (fun _ _ _ => h _ _ _ _ .backuped)

end MilvusBackup

namespace MilvusBackup

/-! ### Layout and injectivity of the destinations -/

/-- The binlogs of `l` are listed under `kind` as `fillSegmentBackupInfo` lists them for `seg`:
each is `{R/}kind/c/p/s/f/o` for the segment's own ids, a field id `f` and an object name `o`
without `/`. -/
def SegmentBackupInfo.ListedUnder (rootPath kind : String) (seg : SegmentBackupInfo)
    (l : List FieldBinlog) : Prop :=
  ∀ b ∈ FieldBinlog.allBinlogs l, ∃ f o, '/' ∉ o.data ∧
    b.logPath = sourceBinlogPath rootPath kind seg.collectionId seg.partitionId seg.segmentId f o

/-- The insert and delta binlogs recorded for `seg` are laid out as listed. -/
def SegmentBackupInfo.LaidOut (rootPath : String) (seg : SegmentBackupInfo) : Prop :=
  seg.ListedUnder rootPath insertLogDir seg.binlogs ∧
    seg.ListedUnder rootPath deltaLogDir seg.deltalogs

/-- A pair `copySegment` copies for a laid-out segment: a listed binlog, and its destination
with the group id of its loop. -/
theorem mem_copySegmentTargets {cfg : Config} {dstPath x t : String} {seg : SegmentBackupInfo}
    (hl : seg.LaidOut cfg.milvusRootPath) (h : (x, t) ∈ copySegmentTargets cfg dstPath seg) :
    ∃ kind g f o, '/' ∉ o.data ∧
      x = sourceBinlogPath cfg.milvusRootPath kind seg.collectionId seg.partitionId
        seg.segmentId f o ∧
      t = binlogTarget cfg dstPath seg.partitionId g x ∧
      (kind = insertLogDir ∧ g = seg.segmentId ∧ FieldBinlog.allBinlogs seg.binlogs ≠ [] ∨
        kind = deltaLogDir ∧
          g = if FieldBinlog.allBinlogs seg.binlogs = [] then seg.groupId else seg.segmentId) := by
  simp only [copySegmentTargets, List.mem_append, List.mem_map, Prod.mk.injEq] at h
  rcases h with ⟨b, hb, rfl, rfl⟩ | ⟨b, hb, rfl, rfl⟩
  · obtain ⟨f, o, ho, hx⟩ := hl.1 b hb
    exact ⟨_, _, f, o, ho, hx, rfl, .inl ⟨rfl, rfl, List.ne_nil_of_mem hb⟩⟩
  · obtain ⟨f, o, ho, hx⟩ := hl.2 b hb
    exact ⟨_, _, f, o, ho, hx, rfl, .inr ⟨rfl, rfl⟩⟩

/-- **Distinct binlogs of a backup are copied to distinct destinations**: of two laid-out
segments the MetaManager records and `copySegment` copies under one backup `b` – the backup
that last added their collections – two different binlogs, insert or delta, of one segment or of
two, go to two different destinations. The destination gives back the segment id, so the
segment; the kind directory survives the group-id rewrite, and both loops use one group id once
there is an insert binlog. -/
theorem segmentCopies_injective {m : MetaManager} {b : BackupInfo} (cfg : Config)
    {seg₁ seg₂ : SegmentBackupInfo} (h₁ : seg₁ ∈ m.segments) (h₂ : seg₂ ∈ m.segments)
    (hb₁ : m.getBackupBySegmentID seg₁.segmentId = some b)
    (hb₂ : m.getBackupBySegmentID seg₂.segmentId = some b)
    (hl₁ : seg₁.LaidOut cfg.milvusRootPath) (hl₂ : seg₂.LaidOut cfg.milvusRootPath)
    {x y t₁ t₂ : String} (hx : (x, t₁) ∈ segmentCopies cfg m seg₁)
    (hy : (y, t₂) ∈ segmentCopies cfg m seg₂) (hxy : x ≠ y) : t₁ ≠ t₂ := by
  rintro rfl
  rw [segmentCopies, MetaManager.segmentBackupName, hb₁] at hx
  rw [segmentCopies, MetaManager.segmentBackupName, hb₂] at hy
  obtain ⟨k₁, g₁, f₁, o₁, ho₁, rfl, rfl, hk₁⟩ := mem_copySegmentTargets hl₁ hx
  obtain ⟨k₂, g₂, f₂, o₂, ho₂, rfl, ht, hk₂⟩ := mem_copySegmentTargets hl₂ hy
  obtain ⟨hhead, hs, rfl, rfl⟩ := binlogTarget_inj ho₁ ho₂ ht
  obtain rfl := m.eq_of_mem_segments h₁ h₂ hs
  refine hxy ?_
  rcases hk₁ with ⟨rfl, rfl, hne⟩ | ⟨rfl, rfl⟩ <;> rcases hk₂ with ⟨rfl, rfl, hne⟩ | ⟨rfl, rfl⟩
  · rfl
  · exact absurd hhead (by rw [if_neg hne]; exact targetHead_insert_ne_delta _ _ _ _)
  · exact absurd hhead.symm (by rw [if_neg hne]; exact targetHead_insert_ne_delta _ _ _ _)
  · rfl

theorem dailySegment_laidOut : dailySegment.LaidOut dailyConfig.milvusRootPath := by
  refine ⟨fun b hb => ⟨100, "1", by decide, ?_⟩, fun b hb => ⟨100, "2", by decide, ?_⟩⟩ <;>
  · simp only [dailySegment, FieldBinlog.allBinlogs, List.flatMap_cons, List.flatMap_nil,
      List.append_nil, List.mem_singleton] at hb
    subst hb
    decide

/-- The insert and the delta binlog of `dailySegment` go to two destinations under `daily`. -/
theorem segmentCopies_injective_daily :
    dailySegment ∈ dailyMeta.segments ∧
    dailyMeta.getBackupBySegmentID dailySegment.segmentId = some { id := "b", name := "daily" } ∧
    ("files/insert_log/12/2/7/100/1", "backup/daily/binlogs/insert_log/12/7/2/7/100/1") ∈
      segmentCopies dailyConfig dailyMeta dailySegment ∧
    ("files/delta_log/12/2/7/100/2", "backup/daily/binlogs/delta_log/12/7/2/7/100/2") ∈
      segmentCopies dailyConfig dailyMeta dailySegment ∧
    "files/insert_log/12/2/7/100/1" ≠ "files/delta_log/12/2/7/100/2" ∧
    "backup/daily/binlogs/insert_log/12/7/2/7/100/1" ≠
      "backup/daily/binlogs/delta_log/12/7/2/7/100/2" :=
  have hs : dailySegment ∈ dailyMeta.segments := by decide
  have hb : dailyMeta.getBackupBySegmentID dailySegment.segmentId =
      some { id := "b", name := "daily" } := by decide
  have hx : ("files/insert_log/12/2/7/100/1", "backup/daily/binlogs/insert_log/12/7/2/7/100/1") ∈
      segmentCopies dailyConfig dailyMeta dailySegment := by decide
  have hy : ("files/delta_log/12/2/7/100/2", "backup/daily/binlogs/delta_log/12/7/2/7/100/2") ∈
      segmentCopies dailyConfig dailyMeta dailySegment := by decide
  have hxy : "files/insert_log/12/2/7/100/1" ≠ "files/delta_log/12/2/7/100/2" := by decide
  ⟨hs, hb, hx, hy, hxy, segmentCopies_injective dailyConfig hs hs hb hb dailySegment_laidOut
    dailySegment_laidOut hx hy hxy⟩

/-- Milvus's root path `r/b1/5/binlogs` holds the binlog directory `r/b1/binlogs` of backup `b1`
with its first `1` moved: segment `5` of partition `1` of collection `3`. -/
def selfCopyConfig : Config := ⟨"milvus", "backup", "r/b1/5/binlogs", "r"⟩

@[inherit_doc selfCopyConfig]
def selfCopySegment : SegmentBackupInfo :=
  { segmentId := 5, collectionId := 3, partitionId := 1,
    binlogs := [
      { fieldID := 100, binlogs := [{ logPath := "r/b1/5/binlogs/insert_log/3/1/5/100/x" }] }] }

@[inherit_doc selfCopyConfig]
def selfCopyMeta : MetaManager :=
  (((MetaManager.empty.addBackup { id := "a", name := "b1" }).addCollection
    { id := "a", collectionId := 3 }).addPartition { partitionId := 1, collectionId := 3 }).addSegment
    selfCopySegment

/-- A listed binlog whose destination is itself: moving it to `r/b1/binlogs` and putting `/5`
after the first `1` – the one of `b1` – gives the source back, and `copySegment` fails on it. -/
theorem copySegment_target_is_source :
    selfCopySegment.LaidOut selfCopyConfig.milvusRootPath ∧
    (copySegment .engine 5 ⟨selfCopyConfig, Env.nominal, none⟩ { meta := selfCopyMeta }).1 =
      some (sameSrcDstMessage "r/b1/5/binlogs/insert_log/3/1/5/100/x"
        "r/b1/5/binlogs/insert_log/3/1/5/100/x") := by
  refine ⟨⟨fun b hb => ⟨100, "x", by decide, ?_⟩, fun b hb => by simp [selfCopySegment,
    FieldBinlog.allBinlogs] at hb⟩, by decide⟩
  simp only [selfCopySegment, FieldBinlog.allBinlogs, List.flatMap_cons, List.flatMap_nil,
    List.append_nil, List.mem_singleton] at hb
  subst hb
  decide

end MilvusBackup
