import MilvusBackup.Pools

/-!
# A successful backup is complete

What the manifest of a backup promises is that every segment it lists has been copied: its
record is marked backed up, and each of its binlogs has been copied from the Milvus bucket to the
destination `copySegment` computes for it (`MilvusBackup.World.ManifestBackedUp`). This holds
when `executeCreateBackup` returns `nil` from fresh pools for a request that is not meta only
(`MilvusBackup.executeCreateBackup_backsUp`), on an object store that misses none of the
binlogs Milvus lists – without that, `copySegment` returns `nil` having copied nothing when an
insert binlog is missing.

The proof follows the code down and back up:

| level | what it does | lemma |
|---|---|---|
| a binlog | copied, or the copy fails | `MilvusBackup.copyBinlog_copies` |
| a segment | all its binlogs copied, then marked | `MilvusBackup.copySegment_backsUp` |
| a collection | every segment of its partitions | `MilvusBackup.backupCollectionExecute_backsUp` |
| the execute wave | every collection of the backup | `MilvusBackup.executeWave_step` |
| a task | the wave, then the record and the manifest | `MilvusBackup.executeCreateBackup_backsUp` |

Each level waits on its jobs through a fresh pool (`MilvusBackup.waitJobs_batch`), and each
keeps what the levels before it backed up: a copy only ever marks a segment, and writes the
group id of one whose insert binlogs it copies (`MilvusBackup.copySegment_keeps_backedUp`).
-/

namespace MilvusBackup

open BackupM

/-- The object store misses none of the objects asked about in `bucket`: an `Exist` that does
not fail answers `true`. -/
def Env.NoneMissing (e : Env) (bucket : String) : Prop :=
  ∀ t cancelled path, (e.exist t cancelled bucket path).2 = none →
    (e.exist t cancelled bucket path).1 = true

/-- Every copy of every segment of `ids` that `m` records is in the log `l`. -/
def SegmentsCopied (cfg : Config) (ids : List Int) (l : List Event) (m : MetaManager) : Prop :=
  ∀ seg ∈ m.segments, seg.segmentId ∈ ids →
    ∀ p ∈ segmentCopies cfg m seg, Event.copied cfg.milvusBucketName cfg.backupBucketName p.1 p.2 ∈ l

/-- Every record of a segment of `ids` is marked backed up. -/
def SegmentsMarked (ids : List Int) (m : MetaManager) : Prop :=
  ∀ seg ∈ m.segments, seg.segmentId ∈ ids → seg.backuped = true

/-- The segments `ids` are backed up: copied in `l`, and marked. -/
def BackedUpIn (cfg : Config) (ids : List Int) (l : List Event) : Invariant := fun m _ _ =>
  SegmentsCopied cfg ids l m ∧ SegmentsMarked ids m

@[inherit_doc BackedUpIn]
def World.BackedUp (cfg : Config) (ids : List Int) (w : World) : Prop :=
  w.Holds (BackedUpIn cfg ids w.log)


namespace SegmentsCopied

variable {cfg : Config} {ids ids' : List Int} {l l' : List Event} {m : MetaManager}

theorem mono_log (h : SegmentsCopied cfg ids l m) (hl : ∀ e ∈ l, e ∈ l') :
    SegmentsCopied cfg ids l' m :=
  fun seg hseg hid p hp => hl _ (h seg hseg hid p hp)

theorem append (h : SegmentsCopied cfg ids l m) (h' : SegmentsCopied cfg ids' l m) :
    SegmentsCopied cfg (ids ++ ids') l m :=
  fun seg hseg hid => (List.mem_append.mp hid).elim (h seg hseg) (h' seg hseg)

/-- An update of a segment record keeps the copies of the records it leaves with the same
destinations. -/
theorem updateSegment {segmentId : Int} {opts : List SegmentOpt} (h : SegmentsCopied cfg ids l m)
    (hkeep : ∀ seg ∈ m.segments, seg.segmentId = segmentId → seg.segmentId ∈ ids →
      ∀ dst, copySegmentTargets cfg dst (applyOpts SegmentOpt.apply opts seg) =
        copySegmentTargets cfg dst seg) :
    SegmentsCopied cfg ids l (m.updateSegment segmentId opts) := by
  intro seg' hseg' hid
  rw [MetaManager.updateSegment_segments, List.mem_map] at hseg'
  obtain ⟨seg, hseg, rfl⟩ := hseg'
  unfold segmentCopies
  rw [MetaManager.segmentBackupName_updateSegment]
  split_ifs at hid ⊢ with hs
  · rw [applyOpts_keep _ SegmentOpt.apply_segmentId] at hid ⊢
    rw [hkeep seg hseg hs hid]
    exact h seg hseg hid
  · exact h seg hseg hid

theorem updateSegment_of_not_mem {segmentId : Int} (opts : List SegmentOpt) (hid : segmentId ∉ ids)
    (h : SegmentsCopied cfg ids l m) : SegmentsCopied cfg ids l (m.updateSegment segmentId opts) :=
  h.updateSegment fun _ _ hs hs' => absurd (hs ▸ hs') hid

theorem setBackuped (segmentId : Int) (b : Bool) (h : SegmentsCopied cfg ids l m) :
    SegmentsCopied cfg ids l (m.updateSegment segmentId [.setBackuped b]) :=
  h.updateSegment fun seg _ _ _ _ => by cases seg; rfl

/-- Setting the group id of a segment with an insert binlog changes none of its copies: its
delta binlogs go under the segment id already. -/
theorem setGroupId (segmentId : Int)
    (hins : ∀ seg, m.getSegment segmentId = some seg → FieldBinlog.allBinlogs seg.binlogs ≠ [])
    (h : SegmentsCopied cfg ids l m) :
    SegmentsCopied cfg ids l (m.updateSegment segmentId [.setGroupId segmentId]) :=
  h.updateSegment fun seg hseg hs _ _ => by
    have hne := hins seg (hs ▸ m.getSegment_of_mem hseg)
    cases seg
    simp [copySegmentTargets, applyOpts, SegmentOpt.apply, hne]

end SegmentsCopied

/-- A property every option of a set keeps is kept by the set. -/
theorem applyOpts_induction {α β : Type} {apply : α → β → β} (P : β → Prop) {opts : List α}
    (h : ∀ o ∈ opts, ∀ x, P x → P (apply o x)) {x : β} (hx : P x) : P (applyOpts apply opts x) := by
  induction opts generalizing x with
  | nil => exact hx
  | cons o opts ih =>
    exact ih (fun o' ho' => h o' (List.mem_cons_of_mem _ ho')) (h o (List.mem_cons_self _ _) x hx)

/-- An update that never unmarks a record keeps the marks. -/
theorem SegmentsMarked.updateSegment {ids : List Int} {m : MetaManager} {segmentId : Int}
    {opts : List SegmentOpt} (h : SegmentsMarked ids m)
    (hopts : segmentId ∈ ids → ∀ o ∈ opts, ∀ seg : SegmentBackupInfo, seg.backuped = true →
      (o.apply seg).backuped = true) :
    SegmentsMarked ids (m.updateSegment segmentId opts) := by
  intro seg' hseg' hid
  rw [MetaManager.updateSegment_segments, List.mem_map] at hseg'
  obtain ⟨seg, hseg, rfl⟩ := hseg'
  split_ifs at hid ⊢ with hs
  · rw [applyOpts_keep _ SegmentOpt.apply_segmentId] at hid
    exact applyOpts_induction (fun x : SegmentBackupInfo => x.backuped = true) (hopts (hs ▸ hid))
      (h seg hseg hid)
  · exact h seg hseg hid

/-- `UpdateSegment(segmentId, setBackuped(true))` marks every record of the segment. -/
theorem SegmentsMarked.setBackuped (m : MetaManager) (segmentId : Int) :
    SegmentsMarked [segmentId] (m.updateSegment segmentId [.setBackuped true]) := by
  intro seg hseg hid
  rw [MetaManager.updateSegment_segments, List.mem_map] at hseg
  obtain ⟨seg, -, rfl⟩ := hseg
  split_ifs at hid ⊢ with hs
  · cases seg
    rfl
  · exact absurd (List.mem_singleton.mp hid) hs

/-- Updating a backup record changes no segment and no backup name. -/
theorem BackedUpIn.updateBackup {cfg : Config} {ids : List Int} {l : List Event} {m : MetaManager}
    {cp : Pool CollectionJob} {dp : Pool Int} (id : String) (opts : List BackupOpt)
    (h : BackedUpIn cfg ids l m cp dp) : BackedUpIn cfg ids l (m.updateBackup id opts) cp dp := by
  rw [BackedUpIn, SegmentsCopied, SegmentsMarked, MetaManager.updateBackup_segments]
  refine ⟨fun seg hseg hid => ?_, h.2⟩
  rw [segmentCopies, MetaManager.segmentBackupName_updateBackup]
  exact h.1 seg hseg hid

/-- Updating a collection record changes no segment and no backup name. -/
theorem BackedUpIn.updateCollection {cfg : Config} {ids : List Int} {l : List Event}
    {m : MetaManager} {cp : Pool CollectionJob} {dp : Pool Int} (id : String)
    (collectionId : Int) (opts : List CollectionOpt) (h : BackedUpIn cfg ids l m cp dp) :
    BackedUpIn cfg ids l (m.updateCollection id collectionId opts) cp dp := by
  rw [BackedUpIn, SegmentsCopied, SegmentsMarked, MetaManager.updateCollection_segments]
  refine ⟨fun seg hseg hid => ?_, h.2⟩
  rw [segmentCopies, MetaManager.segmentBackupName_updateCollection]
  exact h.1 seg hseg hid

theorem BackedUpIn.updateSegment_of_not_mem {cfg : Config} {ids : List Int} {l : List Event}
    {m : MetaManager} {cp : Pool CollectionJob} {dp : Pool Int} {segmentId : Int}
    (opts : List SegmentOpt) (hid : segmentId ∉ ids) (h : BackedUpIn cfg ids l m cp dp) :
    BackedUpIn cfg ids l (m.updateSegment segmentId opts) cp dp :=
  ⟨h.1.updateSegment_of_not_mem opts hid, h.2.updateSegment fun hid' => absurd hid' hid⟩

/-- A run that keeps the invariant for every log keeps the segments `ids` backed up. -/
theorem World.BackedUp.of_keeps {α : Type} {x : BackupM α} {s : Setting} {ids : List Int}
    {w : World} (h : ∀ l, Keeps (BackedUpIn s.cfg ids l) (fun _ => True) x s)
    (hw : w.BackedUp s.cfg ids) : (x s w).2.BackedUp s.cfg ids := by
  obtain ⟨⟨hc, hm⟩, l', hl, -⟩ := h w.log w hw
  exact ⟨hl ▸ hc.mono_log fun e he => List.mem_append_left _ he, hm⟩

theorem World.BackedUp.append {cfg : Config} {ids ids' : List Int} {w : World}
    (h : w.BackedUp cfg ids) (h' : w.BackedUp cfg ids') : w.BackedUp cfg (ids ++ ids') :=
  ⟨h.1.append h'.1, fun seg hseg hid => (List.mem_append.mp hid).elim (h.2 seg hseg) (h'.2 seg hseg)⟩

theorem World.BackedUp.tick {cfg : Config} {ids : List Int} {w : World} (h : w.BackedUp cfg ids) :
    w.tick.BackedUp cfg ids := by
  obtain ⟨⟩ := w
  exact h

theorem World.BackedUp.updateCollection {cfg : Config} {ids : List Int} {w : World}
    (h : w.BackedUp cfg ids) (id : String) (collectionId : Int) (opts : List CollectionOpt) :
    (w.setMeta (·.updateCollection id collectionId opts)).BackedUp cfg ids := by
  obtain ⟨m, c, l, cp, dp⟩ := w
  exact @BackedUpIn.updateCollection _ _ _ _ cp dp id collectionId opts h

theorem World.BackedUp.mono {cfg : Config} {ids ids' : List Int} {w : World}
    (h : w.BackedUp cfg ids) (hsub : ∀ i ∈ ids', i ∈ ids) : w.BackedUp cfg ids' :=
  ⟨fun seg hseg hid => h.1 seg hseg (hsub _ hid), fun seg hseg hid => h.2 seg hseg (hsub _ hid)⟩

theorem copySegment_keeps_copies (ctx : Ctx) (segmentID : Int) (s : Setting) (ids : List Int)
    (l : List Event) :
    Keeps (fun m _ _ => SegmentsCopied s.cfg ids l m) (fun _ => True) (copySegment ctx segmentID) s :=
  copySegment_keeps_marks ctx segmentID s (fun _ _ _ h hins => h.setGroupId segmentID hins)
    fun _ _ _ h => h.setBackuped segmentID true

/-- **A copy never undoes a backup**: whatever it returns, `copySegment` keeps every segment
backed up that was. -/
theorem copySegment_keeps_backedUp (ctx : Ctx) (segmentID : Int) (s : Setting) (ids : List Int)
    (l : List Event) :
    Keeps (BackedUpIn s.cfg ids l) (fun _ => True) (copySegment ctx segmentID) s :=
  copySegment_keeps_marks ctx segmentID s
    (fun _ _ _ h hins => ⟨h.1.setGroupId segmentID hins, h.2.updateSegment fun _ o ho seg hb => by
      rw [List.mem_singleton.mp ho]; cases seg; exact hb⟩)
    fun _ _ _ h => ⟨h.1.setBackuped segmentID true, h.2.updateSegment fun _ o ho seg _ => by
      rw [List.mem_singleton.mp ho]; cases seg; rfl⟩

/-- A copy that returns `nil` is in the log. -/
theorem copy_copied {ctx : Ctx} {srcBucket dstBucket src dst : String} {s : Setting} {w : World}
    (h : (copy ctx srcBucket dstBucket src dst s w).1 = none) :
    Event.copied srcBucket dstBucket src dst ∈ (copy ctx srcBucket dstBucket src dst s w).2.log := by
  simp only [copy, bind_apply, call_apply] at h ⊢
  split <;> simp_all

/-- So is a copy retried to `nil`. -/
theorem retryDo_copy_copied {ctx : Ctx} {srcBucket dstBucket src dst : String} {s : Setting} :
    ∀ (n : Nat) (w : World),
    (retryDo ctx (copy ctx srcBucket dstBucket src dst) (n + 1) s w).1 = none →
    Event.copied srcBucket dstBucket src dst ∈
      (retryDo ctx (copy ctx srcBucket dstBucket src dst) (n + 1) s w).2.log := by
  intro n w h
  rcases retryDo_succ_of_none h with ⟨hok, heq⟩ | ⟨n, rfl, -, heq⟩ <;> rw [heq] at h ⊢
  · exact copy_copied hok
  · exact retryDo_copy_copied n _ h

/-- **A binlog is copied, or the copy fails**: on a store that misses nothing, `copyBinlog`
either returns an error or has copied the binlog to its target. -/
theorem copyBinlog_copies {s : Setting} (hmiss : s.env.NoneMissing s.cfg.milvusBucketName)
    (ctx : Ctx) (onMissing : Option GoError → String → Option GoError) (binlog : Binlog)
    (targetPath : String) (w : World) :
    (∃ e, (copyBinlog ctx onMissing binlog targetPath s w).1 = .error (some e)) ∨
      (copyBinlog ctx onMissing binlog targetPath s w).1 = .ok () ∧
      Event.copied s.cfg.milvusBucketName s.cfg.backupBucketName binlog.logPath targetPath ∈
        (copyBinlog ctx onMissing binlog targetPath s w).2.log := by
  unfold copyBinlog
  by_cases ht : targetPath = binlog.logPath
  · simp [ht]
  simp only [ht, if_false, exist, bind_apply, call_apply, setting_apply, pure_apply, pure_bind]
  have hex := hmiss w.clock (s.cancelled ctx w.clock) binlog.logPath
  rcases hans : s.env.exist w.clock (s.cancelled ctx w.clock) s.cfg.milvusBucketName binlog.logPath
    with ⟨ex, _ | e⟩
  · rw [hans] at hex
    obtain rfl : ex = true := hex rfl
    simp only [Bool.not_true, Bool.false_eq_true, if_false, bind_apply]
    have hc := @retryDo_copy_copied ctx s.cfg.milvusBucketName s.cfg.backupBucketName
      binlog.logPath targetPath s 4 w.tick
    revert hc
    cases (retryDo ctx (copy ctx s.cfg.milvusBucketName s.cfg.backupBucketName binlog.logPath
      targetPath) 5 s w.tick).1 <;> simp
  · simp

section Copies

variable {s : Setting} (hmiss : s.env.NoneMissing s.cfg.milvusBucketName)
include hmiss

/-- The insert loop fails, or has copied every binlog into the segment's group directory. -/
theorem copyInsertBinlogs_copies (ctx : Ctx) (dstPath : String) (segmentID partitionId : Int) :
    ∀ (bs : List Binlog) (groupId : Int) (w : World),
    (∃ e, (copyInsertBinlogs ctx dstPath segmentID partitionId groupId bs s w).1 = .error (some e)) ∨
      (∃ g, (copyInsertBinlogs ctx dstPath segmentID partitionId groupId bs s w).1 = .ok g) ∧
      ∀ b ∈ bs, Event.copied s.cfg.milvusBucketName s.cfg.backupBucketName b.logPath
        (binlogTarget s.cfg dstPath partitionId segmentID b.logPath) ∈
          (copyInsertBinlogs ctx dstPath segmentID partitionId groupId bs s w).2.log
  | [], _, _ => .inr ⟨⟨_, rfl⟩, by simp⟩
  | b :: bs, _, w => by
    simp only [copyInsertBinlogs, bind_apply, modifyMeta_apply, setting_apply]
    rcases copyBinlog_copies hmiss ctx (fun err _ => err) b
      (binlogTarget s.cfg dstPath partitionId segmentID b.logPath)
      (w.setMeta (·.updateSegment segmentID [.setGroupId segmentID])) with ⟨e, he⟩ | ⟨hok, hc⟩
    · exact .inl ⟨e, by rw [he]; rfl⟩
    rw [hok]
    rcases copyInsertBinlogs_copies ctx dstPath segmentID partitionId bs segmentID _ with h | ⟨hg, hall⟩
    · exact .inl h
    refine .inr ⟨hg, ?_⟩
    rintro b' (_ | ⟨_, hb'⟩)
    · obtain ⟨l, hl, -⟩ := copyInsertBinlogs_appends ctx dstPath segmentID partitionId s bs segmentID
        (copyBinlog ctx (fun err _ => err) b (binlogTarget s.cfg dstPath partitionId segmentID b.logPath) s
          (w.setMeta (·.updateSegment segmentID [.setGroupId segmentID]))).2
      rw [hl]
      exact List.mem_append_left _ hc
    · exact hall b' hb'

/-- The delta loop fails, or has copied every binlog into the group's directory. -/
theorem copyDeltaBinlogs_copies (ctx : Ctx) (dstPath : String) (partitionId groupId : Int) :
    ∀ (bs : List Binlog) (w : World),
    (∃ e, (copyDeltaBinlogs ctx dstPath partitionId groupId bs s w).1 = .error (some e)) ∨
      (copyDeltaBinlogs ctx dstPath partitionId groupId bs s w).1 = .ok () ∧
      ∀ b ∈ bs, Event.copied s.cfg.milvusBucketName s.cfg.backupBucketName b.logPath
        (binlogTarget s.cfg dstPath partitionId groupId b.logPath) ∈
          (copyDeltaBinlogs ctx dstPath partitionId groupId bs s w).2.log
  | [], _ => .inr ⟨rfl, by simp⟩
  | b :: bs, w => by
    simp only [copyDeltaBinlogs, bind_apply, setting_apply]
    rcases copyBinlog_copies hmiss ctx (fun _ path => some ("Binlog file not exist " ++ path)) b
      (binlogTarget s.cfg dstPath partitionId groupId b.logPath) w with ⟨e, he⟩ | ⟨hok, hc⟩
    · exact .inl ⟨e, by rw [he]; rfl⟩
    rw [hok]
    rcases copyDeltaBinlogs_copies ctx dstPath partitionId groupId bs _ with h | ⟨hg, hall⟩
    · exact .inl h
    refine .inr ⟨hg, ?_⟩
    rintro b' (_ | ⟨_, hb'⟩)
    · obtain ⟨l, hl, -⟩ := copyDeltaBinlogs_appends ctx dstPath partitionId groupId s bs
        (copyBinlog ctx (fun _ path => some ("Binlog file not exist " ++ path)) b
          (binlogTarget s.cfg dstPath partitionId groupId b.logPath) s w).2
      rw [hl]
      exact List.mem_append_left _ hc
    · exact hall b' hb'

/-- What a copy that returns `nil` did: its segment was recorded, every copy of it is in the log
of the world that the final mark is written to. -/
theorem copySegment_ok (ctx : Ctx) (segmentID : Int) (w : World)
    (h : (copySegment ctx segmentID s w).1 = none) :
    ∃ (seg : SegmentBackupInfo) (w' : World), w.meta.getSegment segmentID = some seg ∧
      (copySegment ctx segmentID s w).2 = w'.setMeta (·.updateSegment segmentID [.setBackuped true]) ∧
      ∀ p ∈ copySegmentTargets s.cfg
          (backupBinlogDirPath s.cfg.backupRootPath (w.meta.segmentBackupName segmentID)) seg,
        Event.copied s.cfg.milvusBucketName s.cfg.backupBucketName p.1 p.2 ∈ w'.log := by
  unfold copySegment at h ⊢
  simp only [bind_apply, meta_apply] at h ⊢
  cases hseg : w.meta.getSegment segmentID with
  | none => rw [hseg] at h; simp at h
  | some seg =>
  rw [hseg] at h
  refine ⟨seg, ?_⟩
  simp only [bind_apply, setting_apply, true_and] at h ⊢
  have hname : (Option.map BackupInfo.name (w.meta.getBackupBySegmentID segmentID)).getD "" =
      w.meta.segmentBackupName segmentID := rfl
  rw [hname] at h ⊢
  obtain rfl := w.meta.getSegment_segmentId hseg
  set dstPath := backupBinlogDirPath s.cfg.backupRootPath (w.meta.segmentBackupName seg.segmentId)
  rcases copyInsertBinlogs_copies hmiss ctx dstPath seg.segmentId seg.partitionId
    (FieldBinlog.allBinlogs seg.binlogs) seg.groupId w with ⟨e, he⟩ | ⟨⟨g, hg⟩, hins⟩
  · rw [he] at h
    exact absurd h (by simp)
  have hgv := copyInsertBinlogs_ensures ctx dstPath seg.segmentId seg.partitionId s
    (FieldBinlog.allBinlogs seg.binlogs) seg.groupId w g hg
  rw [hg] at h ⊢
  simp only [bind_apply] at h ⊢
  set w₁ := (copyInsertBinlogs ctx dstPath seg.segmentId seg.partitionId seg.groupId
    (FieldBinlog.allBinlogs seg.binlogs) s w).2
  rcases copyDeltaBinlogs_copies hmiss ctx dstPath seg.partitionId g
    (FieldBinlog.allBinlogs seg.deltalogs) w₁ with ⟨e, he⟩ | ⟨hok, hdel⟩
  · rw [he] at h
    exact absurd h (by simp)
  rw [hok]
  refine ⟨_, rfl, fun p hp => ?_⟩
  obtain ⟨l, hl, -⟩ := copyDeltaBinlogs_appends ctx dstPath seg.partitionId g s
    (FieldBinlog.allBinlogs seg.deltalogs) w₁
  simp only [copySegmentTargets, List.mem_append, List.mem_map] at hp
  rcases hp with ⟨b, hb, rfl⟩ | ⟨b, hb, rfl⟩
  · rw [hl]
    exact List.mem_append_left _ (hins b hb)
  · rw [← hgv]
    exact hdel b hb

/-- **A copy that returns `nil` has backed its segment up**, when the store misses no binlog:
the record is marked, and each of its binlogs copied to its destination. -/
theorem copySegment_backsUp (ctx : Ctx) (segmentID : Int) (w : World)
    (h : (copySegment ctx segmentID s w).1 = none) :
    (copySegment ctx segmentID s w).2.BackedUp s.cfg [segmentID] := by
  obtain ⟨seg, w', hseg, heq, hcop⟩ := copySegment_ok hmiss ctx segmentID w h
  have hstart : SegmentsCopied s.cfg [segmentID] (copySegment ctx segmentID s w).2.log w.meta := by
    intro r hr hid
    obtain rfl := List.mem_singleton.mp hid
    obtain rfl : r = seg := Option.some_injective _ ((w.meta.getSegment_of_mem hr).symm.trans hseg)
    rw [heq]
    exact hcop
  refine ⟨((copySegment_keeps_copies ctx segmentID s [segmentID] _) w hstart).1, ?_⟩
  rw [heq]
  exact SegmentsMarked.setBackuped _ segmentID

end Copies

/-- The ids of the segments an execute job of `c` gathers from `m`. -/
def collectionSegmentIds (m : MetaManager) (c : CollectionBackupInfo) : List Int :=
  (collectionSegments m c).map SegmentBackupInfo.segmentId

/-- Every segment of the backup tree `GetFullMeta` joins lies in a partition of one of the
backup's collection records. -/
theorem MetaManager.mem_collectionSegments_of_getFullMeta {m : MetaManager} {id : String}
    {b : BackupInfo} (hb : m.getFullMeta id = some b) {seg : SegmentBackupInfo}
    (hs : seg ∈ b.allSegments) : ∃ c ∈ m.getCollections id, seg ∈ collectionSegments m c := by
  obtain ⟨b', -, rfl⟩ := Option.map_eq_some'.mp hb
  simp only [BackupInfo.allSegments, List.flatMap_map, List.mem_flatMap] at hs
  obtain ⟨c, hc, p, hp, hs⟩ := hs
  exact ⟨c, hc, List.mem_flatMap.mpr ⟨p, hp, hs⟩⟩

theorem collectionSegmentIds_congr {m : MetaManager} {c c' : CollectionBackupInfo}
    (h : c.collectionId = c'.collectionId) : collectionSegmentIds m c = collectionSegmentIds m c' := by
  rw [collectionSegmentIds, collectionSegments, h]
  rfl

theorem collectionSegmentIds_updateBackup (m : MetaManager) (c : CollectionBackupInfo) (id : String)
    (opts : List BackupOpt) :
    collectionSegmentIds (m.updateBackup id opts) c = collectionSegmentIds m c := by
  cases m; rfl

theorem MetaManager.getCollections_updateBackup (m : MetaManager) (id id' : String)
    (opts : List BackupOpt) : (m.updateBackup id' opts).getCollections id = m.getCollections id := by
  cases m; rfl

/-- Writing a segment record moves no segment to another partition. -/
theorem collectionSegmentIds_updateSegment (m : MetaManager) (c : CollectionBackupInfo)
    (segmentId : Int) (opts : List SegmentOpt) :
    collectionSegmentIds (m.updateSegment segmentId opts) c = collectionSegmentIds m c := by
  have hg : ∀ x : SegmentBackupInfo, (x.updateWhen segmentId opts).partitionId = x.partitionId ∧
      (x.updateWhen segmentId opts).segmentId = x.segmentId := fun x => by
    rw [SegmentBackupInfo.updateWhen_eq]
    split
    · exact ⟨applyOpts_keep _ SegmentOpt.apply_partitionId _ _,
        applyOpts_keep _ SegmentOpt.apply_segmentId _ _⟩
    · exact ⟨rfl, rfl⟩
  have hs : (m.updateSegment segmentId opts).segments =
      m.segments.map (SegmentBackupInfo.updateWhen segmentId opts) := rfl
  simp only [collectionSegmentIds, collectionSegments, List.map_flatMap, MetaManager.getSegments,
    MetaManager.getPartitions, MetaManager.updateSegment_partitions, hs, List.filter_map,
    List.map_map]
  congr 1
  funext p
  congr 1
  · funext x
    exact (hg x).2
  · congr 1
    funext x
    simp only [Function.comp_apply, (hg x).1]

/-- Updating a collection record keeps the collection ids of every backup. -/
theorem collectionIds_updateCollection (m : MetaManager) (id' : String) (collectionId : Int)
    (opts : List CollectionOpt) (id : String) :
    ((m.updateCollection id' collectionId opts).getCollections id).map
        CollectionBackupInfo.collectionId =
      (m.getCollections id).map CollectionBackupInfo.collectionId := by
  simp only [MetaManager.getCollections, MetaManager.updateCollection_collections, List.filter_map,
    List.map_map]
  congr 1
  · funext c
    exact CollectionBackupInfo.updateWhen_collectionId _ _ _ c
  · congr 1
    funext c
    simp only [Function.comp_apply, CollectionBackupInfo.updateWhen_id]


/-! ### An execute job -/

section Execute

variable {s : Setting}

/-- A fill loop that succeeds submits one copy per segment, in order, under consecutive ids. -/
theorem submitCopyJobs_ok (ctx : Ctx) : ∀ (segments : List SegmentBackupInfo) (jobIds : List Nat)
    (w : World) (ids : List Nat), (submitCopyJobs ctx segments jobIds s w).1 = .ok ids →
    ids = jobIds ++ List.range' w.copyPool.nextId segments.length ∧
    (submitCopyJobs ctx segments jobIds s w).2.copyPool = ⟨w.copyPool.nextId + segments.length,
      w.copyPool.pending ++ (segments.map SegmentBackupInfo.segmentId).enumFrom w.copyPool.nextId,
      w.copyPool.finished⟩
  | [], jobIds, w, ids, h => by
    simp only [submitCopyJobs, pure_apply, Except.ok.injEq] at h
    subst h
    exact ⟨by simp, by simp [submitCopyJobs]⟩
  | seg :: rest, jobIds, w, ids, h => by
    have hfill : (fillSegmentBackupInfo ctx seg s w).2.copyPool = w.copyPool :=
      ((fillSegmentBackupInfo_keeps ctx seg s fun _ _ _ _ _ h => h :
        Keeps (fun _ _ dp => dp = w.copyPool) (fun _ => True) _ s) w rfl).1
    simp only [submitCopyJobs, bind_apply] at h ⊢
    cases hr : (fillSegmentBackupInfo ctx seg s w).1 with
    | some err => rw [hr] at h; simp at h
    | none =>
      rw [hr] at h
      simp only [bind_apply, submitWithId_apply copyPoolRef_focuses] at h ⊢
      obtain ⟨h₁, h₂⟩ := submitCopyJobs_ok ctx rest _ _ ids h
      simp only [hfill] at h₁ h₂ ⊢
      refine ⟨by simp [h₁, List.range'_succ], ?_⟩
      rw [h₂]
      simp [Nat.add_assoc, Nat.add_comm 1]

/-- An execute job moves no segment to another collection, keeps the collection ids of every
backup and leaves the collection pool alone. -/
theorem backupCollectionExecute_frame (ctx : Ctx) (collectionBackup : CollectionBackupInfo)
    (w : World) :
    (∀ c, collectionSegmentIds (backupCollectionExecute ctx collectionBackup s w).2.meta c =
      collectionSegmentIds w.meta c) ∧
    (∀ id, ((backupCollectionExecute ctx collectionBackup s w).2.meta.getCollections id).map
      CollectionBackupInfo.collectionId = (w.meta.getCollections id).map CollectionBackupInfo.collectionId) ∧
    (backupCollectionExecute ctx collectionBackup s w).2.collectionPool = w.collectionPool :=
  ((backupCollectionExecute_keeps ctx collectionBackup
    (fun sid opts m _ _ _ h => ⟨fun c => (collectionSegmentIds_updateSegment m c sid opts).trans (h.1 c),
      h.2.1, h.2.2⟩)
    (fun cid opts m _ _ h => ⟨h.1, fun id => (collectionIds_updateCollection m _ cid opts id).trans
      (h.2.1 id), h.2.2⟩)
    (fun _ _ _ _ h => h) (fun _ _ => trivial) :
    Keeps (fun m cp _ => (∀ c, collectionSegmentIds m c = collectionSegmentIds w.meta c) ∧
      (∀ id, (m.getCollections id).map CollectionBackupInfo.collectionId =
        (w.meta.getCollections id).map CollectionBackupInfo.collectionId) ∧ cp = w.collectionPool)
      (fun _ => True) _ s) w ⟨fun _ => rfl, fun _ => rfl, rfl⟩).1

theorem World.BackedUp.nil (cfg : Config) (w : World) : w.BackedUp cfg [] :=
  ⟨fun _ _ h => absurd h (List.not_mem_nil _), fun _ _ h => absurd h (List.not_mem_nil _)⟩

/-- What the execute wave of backup `id` keeps: the copy pool fresh, the collection ids of `id`
as they were, and the collections whose execute job has run backed up. -/
def ExecuteWave (cfg : Config) (id : String) (collectionIds : List Int) (done : List CollectionJob)
    (w : World) : Prop :=
  w.copyPool.Fresh ∧
    (w.meta.getCollections id).map CollectionBackupInfo.collectionId = collectionIds ∧
    ∀ c, CollectionJob.execute c ∈ done → w.BackedUp cfg (collectionSegmentIds w.meta c)

variable (hmiss : s.env.NoneMissing s.cfg.milvusBucketName)
include hmiss

/-- **The segments of a collection are backed up** when `copySegments` returns `nil`, and the copy
pool stays fresh. -/
theorem copySegments_backsUp (ctx : Ctx) (segments : List SegmentBackupInfo) (ids : List Int)
    (w : World) (hfresh : w.copyPool.Fresh) (hw : w.BackedUp s.cfg ids)
    (hdisj : ∀ seg ∈ segments, seg.segmentId ∉ ids) (h : (copySegments ctx segments s w).1 = none) :
    (copySegments ctx segments s w).2.BackedUp s.cfg (ids ++ segments.map SegmentBackupInfo.segmentId) ∧
      (copySegments ctx segments s w).2.copyPool.Fresh := by
  unfold copySegments at h ⊢
  simp only [bind_apply] at h ⊢
  cases hsub : (submitCopyJobs ctx segments [] s w).1 with
  | error err => rw [hsub] at h; simp at h
  | ok jobIds =>
  rw [hsub] at h
  obtain ⟨rfl, hpool⟩ := submitCopyJobs_ok ctx segments [] w jobIds hsub
  have hw₁ := World.BackedUp.of_keeps (fun l => submitCopyJobs_keeps ctx
    (fun seg hseg opts _ _ _ _ h => h.updateSegment_of_not_mem opts (hdisj seg hseg))
    (fun _ _ _ _ _ h => h) []) hw
  have hstep : ∀ (done : List Int) job w, w.BackedUp s.cfg (ids ++ done) →
      (copySegment .engine job s w).1 = none →
      (copySegment .engine job s w).2.BackedUp s.cfg (ids ++ (done ++ [job])) :=
    fun done job w hw hr => List.append_assoc ids done [job] ▸
      (World.BackedUp.of_keeps (fun l => copySegment_keeps_backedUp .engine job s _ l) hw).append
        (copySegment_backsUp hmiss .engine job w hr)
  obtain ⟨⟨rs, hlen, hfinal⟩, hQ⟩ := waitJobs_batch copyPoolRef_focuses
    (copySegment_copyPool .engine · s ·)
    (fun done w => w.BackedUp s.cfg (ids ++ done)) (fun _ _ _ => Iff.rfl)
    (segments.map SegmentBackupInfo.segmentId) (fun done job w _ => hstep done job w)
    w.copyPool.nextId [] _ w.copyPool.pending hfresh.1
    (by rw [hpool]; exact hfresh.2) (by rw [hpool])
  simp only [List.nil_append, List.length_map] at hfinal hQ ⊢
  refine ⟨by simpa using hQ h (by simpa using hw₁), ?_⟩
  rw [hfinal, hpool]
  refine ⟨fun x hx => Nat.lt_add_right _ (hfresh.1 x hx), fun x hx => ?_⟩
  rcases List.mem_append.mp hx with hx | hx
  · exact Nat.lt_add_right _ (hfresh.2 x hx)
  · simpa [hlen] using List.fst_lt_add_of_mem_enumFrom hx

/-- An execute job that returns `nil` has backed up every segment of its collection's
partitions, and kept the segments backed up before. -/
theorem backupCollectionExecute_backsUp (ctx : Ctx) (collectionBackup : CollectionBackupInfo)
    (ids : List Int) (w : World) (hfresh : w.copyPool.Fresh) (hw : w.BackedUp s.cfg ids)
    (h : (backupCollectionExecute ctx collectionBackup s w).1 = none) :
    (backupCollectionExecute ctx collectionBackup s w).2.BackedUp s.cfg
        (ids ++ collectionSegmentIds w.meta collectionBackup) ∧
      (backupCollectionExecute ctx collectionBackup s w).2.copyPool.Fresh := by
  unfold backupCollectionExecute at h ⊢
  simp only [bind_apply, meta_apply] at h ⊢
  set segments := (collectionSegments w.meta collectionBackup).insertionSort
    fun a b => a.size ≤ b.size
  have hperm : ∀ i, i ∈ segments.map SegmentBackupInfo.segmentId ↔
      i ∈ collectionSegmentIds w.meta collectionBackup :=
    fun i => ((List.perm_insertionSort _ _).map _).mem_iff
  cases hc : (copySegments ctx segments s w).1 with
  | some err => rw [hc] at h; simp at h
  | none =>
  obtain ⟨hb, hf⟩ := copySegments_backsUp hmiss ctx segments
    (ids.filter (· ∉ collectionSegmentIds w.meta collectionBackup)) w hfresh
    (hw.mono fun i hi => (List.mem_filter.mp hi).1)
    (fun seg hseg hid => by simp [(hperm _).mp (List.mem_map_of_mem _ hseg)] at hid) hc
  simp only [bind_apply, timeNow, call_apply, modifyMeta_apply, pure_apply]
  refine ⟨(hb.mono fun i hi => ?_).tick.updateCollection _ _ _, hf⟩
  by_cases hg : i ∈ collectionSegmentIds w.meta collectionBackup
  · exact List.mem_append_right _ ((hperm i).mpr hg)
  · rcases List.mem_append.mp hi with hi | hi
    · exact List.mem_append_left _ (List.mem_filter.mpr ⟨hi, by simpa using hg⟩)
    · exact absurd hi hg

/-- One execute job of the wave keeps `ExecuteWave`, and adds its collection when it returns `nil`.
-/
theorem executeWave_step (id : String) (collectionIds : List Int) (done : List CollectionJob)
    (collectionBackup : CollectionBackupInfo) (w : World)
    (hw : ExecuteWave s.cfg id collectionIds done w)
    (h : (runCollectionJob (.execute collectionBackup) s w).1 = none) :
    ExecuteWave s.cfg id collectionIds (done ++ [.execute collectionBackup])
      (runCollectionJob (.execute collectionBackup) s w).2 := by
  obtain ⟨hfresh, hids, hdone⟩ := hw
  obtain ⟨hseg, hcoll, -⟩ := backupCollectionExecute_frame .engine collectionBackup w
  have hrun := backupCollectionExecute_backsUp hmiss .engine collectionBackup
  refine ⟨(hrun [] w hfresh (.nil _ _) h).2, (hcoll id).trans hids, fun c hc => ?_⟩
  show World.BackedUp _ (collectionSegmentIds (backupCollectionExecute .engine collectionBackup s w).2.meta c) _
  rw [hseg]
  rcases List.mem_append.mp hc with hc | hc
  · exact (hrun _ w hfresh (hdone c hc) h).1.mono fun i hi => List.mem_append_left _ hi
  · obtain rfl := CollectionJob.execute.inj (List.mem_singleton.mp hc)
    exact (hrun [] w hfresh (.nil _ _) h).1

/-- **A task run to `nil` backs up its collections**: from fresh pools, every segment of every
collection recorded for the backup is backed up when `executeCreateBackup` returns `nil` for a
request that is not meta only. The prepare wave leaves the copy pool fresh; waiting again on
the prepare jobs runs nothing; the execute wave backs up each collection in turn; the record's
update and the manifest change no segment. -/
theorem executeCreateBackup_backsUp (ctx : Ctx) (request : CreateBackupRequest)
    (backupInfo : BackupInfo) (w : World) (hcp : w.collectionPool.Fresh) (hdp : w.copyPool.Fresh)
    (hmeta : request.metaOnly = false)
    (h : (executeCreateBackup ctx request backupInfo s w).1 = none) :
    ∀ c ∈ (executeCreateBackup ctx request backupInfo s w).2.meta.getCollections backupInfo.id,
      (executeCreateBackup ctx request backupInfo s w).2.BackedUp s.cfg
        (collectionSegmentIds (executeCreateBackup ctx request backupInfo s w).2.meta c) := by
  unfold executeCreateBackup at h ⊢
  simp only [bind_apply] at h ⊢
  cases hparse : (parseBackupCollections request s w).1 with
  | error err => rw [hparse] at h; simp [updateBackup] at h
  | ok collections =>
  rw [hparse] at h
  set w₁ := (parseBackupCollections request s w).2
  have hw₁ : w₁.meta = w.meta ∧ w₁.collectionPool = w.collectionPool ∧ w₁.copyPool = w.copyPool :=
    ((parseBackupCollections_keeps request : Keeps (fun m cp dp => m = w.meta ∧
      cp = w.collectionPool ∧ dp = w.copyPool) (fun _ => True) _ s) w ⟨rfl, rfl, rfl⟩).1
  simp only [bind_apply] at h ⊢
  have hcp₁ : w₁.collectionPool.Fresh := hw₁.2.1 ▸ hcp
  have hprepare : ∀ (done : List CollectionJob) job w,
      job ∈ collections.map (fun c => CollectionJob.prepare backupInfo c request.force) →
      w.copyPool.Fresh → (runCollectionJob job s w).1 = none →
      (runCollectionJob job s w).2.copyPool.Fresh := by
    intro _ job w hjob hw _
    obtain ⟨c, -, rfl⟩ := List.mem_map.mp hjob
    exact ((Keeps.retryDo (backupCollectionPrepare_keeps .engine backupInfo c request.force
      (fun _ _ _ _ _ h => h) (fun _ _ _ _ _ h => h) (fun _ _ _ _ h => h) (fun _ _ _ _ h => h)) 128 :
      Keeps (fun _ _ dp => dp.Fresh) (fun _ => True) _ s) w hw).1
  -- the prepare wave
  obtain ⟨⟨hcp₃, hpend₃, hn₃⟩, hQ₃⟩ := waitJobs_mapM_submitWithId collectionPoolRef_focuses
    (fun _ _ _ => rfl) (runCollectionJob_collectionPool · s ·) (fun _ w => w.copyPool.Fresh)
    (fun _ _ _ => Iff.rfl) (fun c => CollectionJob.prepare backupInfo c request.force) collections
    hprepare [] w₁ hcp₁
  set sub₁ := (collections.mapM fun c =>
    submitWithId collectionPoolRef (CollectionJob.prepare backupInfo c request.force)) s w₁
  set w₃ := (waitJobs collectionPoolRef runCollectionJob sub₁.1 s sub₁.2).2
  cases hwait : (waitJobs collectionPoolRef runCollectionJob sub₁.1 s sub₁.2).1 with
  | some err => rw [hwait] at h; simp [updateBackup] at h
  | none =>
  rw [hwait] at h
  have hdp₃ : w₃.copyPool.Fresh := hQ₃ hwait (hw₁.2.2 ▸ hdp)
  simp only [Option.elim, pure_bind, pure_apply, hmeta, Bool.not_false, if_true, bind_apply,
    meta_apply] at h ⊢
  -- the execute wave, waited on after the prepare jobs again
  set execs := w₃.meta.getCollections backupInfo.id
  set sub₂ := (execs.mapM fun c => submitWithId collectionPoolRef (CollectionJob.execute c)) s w₃
  have hids₁ : sub₁.1 = List.range' w₁.collectionPool.nextId collections.length := by
    simp [sub₁, List.mapM, mapM_loop_submitWithId collectionPoolRef_focuses (fun _ _ _ => rfl)]
  have hpend₄ : sub₂.2.collectionPool.pending = w₃.collectionPool.pending ++
      (execs.map CollectionJob.execute).enumFrom w₃.collectionPool.nextId := by
    simp [sub₂, List.mapM, mapM_loop_submitWithId collectionPoolRef_focuses (fun _ _ _ => rfl)]
  obtain ⟨hsame, hnone⟩ := @waitJobs_append_absent _ _ _ _ runCollectionJob s
    collectionPoolRef_focuses sub₁.1 sub₂.1 sub₂.2 fun i hi x hx => by
      rw [hids₁] at hi
      have hi := List.mem_range'_1.mp hi
      rw [hpend₄] at hx
      rcases List.mem_append.mp hx with hx | hx
      · have := hcp₁.1 x (hpend₃ ▸ hx)
        omega
      · have := List.le_fst_of_mem_enumFrom hx
        omega
  obtain ⟨-, hQ₅⟩ := waitJobs_mapM_submitWithId collectionPoolRef_focuses (fun _ _ _ => rfl)
    (runCollectionJob_collectionPool · s ·)
    (ExecuteWave s.cfg backupInfo.id (execs.map CollectionBackupInfo.collectionId))
    (fun _ _ _ => Iff.rfl) CollectionJob.execute execs
    (fun done job w hjob hw hr => by
      obtain ⟨c, -, rfl⟩ := List.mem_map.mp hjob
      exact executeWave_step hmiss _ _ done c w hw hr) [] w₃ hcp₃
  rw [hsame] at h ⊢
  cases hr : (waitJobs collectionPoolRef runCollectionJob (sub₁.1 ++ sub₂.1) s sub₂.2).1 with
  | some err => rw [hr] at h; simp [updateBackup] at h
  | none =>
  have hQ₅ := hQ₅ (hnone hr) ⟨hdp₃, rfl, fun _ hc => nomatch hc⟩
  simp only [bind_apply]
  set w₅ := (waitJobs collectionPoolRef runCollectionJob sub₂.1 s sub₂.2).2
  obtain ⟨-, hids₅, hdone₅⟩ := hQ₅
  set W := (updateBackup backupInfo.id [.setStateCode .backupSuccess, .setEndTime (timeNow s w₅).1]
    s (timeNow s w₅).2).2
  set W₆ := (writeBackupInfoMeta ctx backupInfo.id s W).2
  have hmeta₆ : W₆.meta =
      w₅.meta.updateBackup backupInfo.id [.setStateCode .backupSuccess, .setEndTime (timeNow s w₅).1] :=
    ((writeBackupInfoMeta_keeps ctx backupInfo.id : Keeps (fun m _ _ => m = W.meta)
      (fun _ => True) _ s) W rfl).1
  have hback : ∀ ids, w₅.BackedUp s.cfg ids → W₆.BackedUp s.cfg ids := fun ids h =>
    .of_keeps (fun _ => writeBackupInfoMeta_keeps ctx backupInfo.id)
      (.of_keeps (fun _ => updateBackup_keeps _ (fun _ _ _ _ h => h.updateBackup _ _)
        fun _ => trivial) (.of_keeps (fun _ => Keeps.call _ _) h))
  have hfinal : ∀ c ∈ W₆.meta.getCollections backupInfo.id,
      W₆.BackedUp s.cfg (collectionSegmentIds W₆.meta c) := by
    intro c hc
    rw [hmeta₆, MetaManager.getCollections_updateBackup] at hc
    rw [hmeta₆, collectionSegmentIds_updateBackup]
    obtain ⟨c', hc', hid⟩ := List.mem_map.mp (hids₅ ▸ List.mem_map_of_mem _ hc :
      c.collectionId ∈ execs.map CollectionBackupInfo.collectionId)
    rw [collectionSegmentIds_congr hid.symm]
    exact hback _ (hdone₅ c' (List.mem_map_of_mem _ hc'))
  clear_value W₆
  cases (writeBackupInfoMeta ctx backupInfo.id s W).1 <;> exact hfinal

end Execute

/-! ### A task run to success -/

/-- What the manifest of backup `id` promises in `w`: every segment of the tree `GetFullMeta`
joins is marked backed up, and each of its binlogs has been copied from the Milvus bucket to
the destination `copySegment` computes for it. -/
def World.ManifestBackedUp (cfg : Config) (id : String) (w : World) : Prop :=
  ∀ b, w.meta.getFullMeta id = some b → ∀ seg ∈ b.allSegments, seg.backuped = true ∧
    ∀ p ∈ segmentCopies cfg w.meta seg, Event.copied cfg.milvusBucketName cfg.backupBucketName p.1 p.2 ∈ w.log

/-- The manifest of a backup lists the segments of its collections' partitions. -/
theorem World.manifestBackedUp_of_collections {cfg : Config} {id : String} {w : World}
    (h : ∀ c ∈ w.meta.getCollections id, w.BackedUp cfg (collectionSegmentIds w.meta c)) :
    w.ManifestBackedUp cfg id := by
  intro b hb seg hseg
  obtain ⟨c, hc, hs⟩ := w.meta.mem_collectionSegments_of_getFullMeta hb hseg
  have hm : seg ∈ w.meta.segments := w.meta.mem_segments_of_getFullMeta hb hseg
  have hid : seg.segmentId ∈ collectionSegmentIds w.meta c := List.mem_map_of_mem _ hs
  exact ⟨(h c hc).2 seg hm hid, (h c hc).1 seg hm hid⟩

end MilvusBackup
