import MilvusBackup.Pools
import Mathlib.Algebra.Order.BigOperators.Group.List

/-!
# The sizes of a backup

A backup tree carries a size at every level (spec §3): a segment's is the sum of the sizes of
its insert and delta binlogs, a partition's the sum of its segments', a collection's the sum of
its partitions' and the backup's the sum of its collections'. The sizes are `int64` fields,
and the sums are Go's `size +=`, which wraps modulo `2^64`.

* `fillSegmentBackupInfo` records a segment's size together with its binlogs, and a copy
  changes neither: **every segment record has the `int64` sum of its binlogs as size**, in every
  state a server reaches (`MilvusBackup.Server.run_segmentsSized`).
* `GetFullMeta` adds the other levels up from the segments, so **the sizes of every full meta
  add up**: in `int64` always, and exactly when the binlogs of each segment add up to a
  nonnegative size and all of them to less than `2^63` bytes
  (`MilvusBackup.server_run_fullMeta_sizes`).
* Past `2^63` bytes the sums wrap: a backup of two binlogs of `2^62` bytes succeeds with the
  size `-2^63` at every level (`MilvusBackup.executeCreateBackup_huge_sizes`).
-/

namespace MilvusBackup

/-! ### Sizes that add up -/

/-- The sizes of the insert and delta binlogs of a segment record, in order. -/
def SegmentBackupInfo.logSizes (seg : SegmentBackupInfo) : List Int :=
  FieldBinlog.logSizes (seg.binlogs ++ seg.deltalogs)

theorem SegmentBackupInfo.sum_logSizes (seg : SegmentBackupInfo) :
    seg.logSizes.sum = FieldBinlog.totalSize seg.binlogs + FieldBinlog.totalSize seg.deltalogs := by
  rw [logSizes, FieldBinlog.logSizes, List.flatMap_append, List.sum_append, ← FieldBinlog.logSizes,
    ← FieldBinlog.logSizes, MilvusBackup.sum_logSizes, MilvusBackup.sum_logSizes]

/-- A record is sized by its binlogs when its size is what Go's loop adds up over them. -/
theorem SegmentBackupInfo.sizeConsistent_iff (seg : SegmentBackupInfo) :
    seg.SizeConsistent ↔ seg.size = Go.sumInt64 seg.logSizes := by
  rw [SizeConsistent, Go.sumInt64_eq, sum_logSizes]

/-- The sizes of a backup tree add up under `sum`: a segment's is `sum` of its binlogs' sizes,
and each other level's is `sum` of the sizes one level down. -/
structure BackupInfo.SizesAddUp (sum : List Int → Int) (b : BackupInfo) : Prop where
  segment : ∀ seg ∈ b.allSegments, seg.size = sum seg.logSizes
  partition : ∀ c ∈ b.collectionBackups, ∀ p ∈ c.partitionBackups,
    p.size = sum (p.segmentBackups.map (·.size))
  collection : ∀ c ∈ b.collectionBackups, c.size = sum (c.partitionBackups.map (·.size))
  backup : b.size = sum (b.collectionBackups.map (·.size))

theorem BackupInfo.mem_allSegments {b : BackupInfo} {seg : SegmentBackupInfo} :
    seg ∈ b.allSegments ↔
      ∃ c ∈ b.collectionBackups, ∃ p ∈ c.partitionBackups, seg ∈ p.segmentBackups := by
  simp only [allSegments, List.mem_flatMap]

/-! ### When the sums are exact -/

/-- The bytes of the binlogs under a partition. -/
def PartitionBackupInfo.logSize (p : PartitionBackupInfo) : Int :=
  (p.segmentBackups.map fun seg => seg.logSizes.sum).sum

/-- The bytes of the binlogs under a collection. -/
def CollectionBackupInfo.logSize (c : CollectionBackupInfo) : Int :=
  (c.partitionBackups.map PartitionBackupInfo.logSize).sum

/-- The bytes of the binlogs of a backup. -/
def BackupInfo.logSize (b : BackupInfo) : Int :=
  (b.collectionBackups.map CollectionBackupInfo.logSize).sum

/-- The binlogs of a backup fit its `int64` sizes: those of each segment add up to a
nonnegative size, and all of them to less than `2^63` bytes. -/
def BackupInfo.LogsFit (b : BackupInfo) : Prop :=
  (∀ seg ∈ b.allSegments, 0 ≤ seg.logSizes.sum) ∧ b.logSize < 2 ^ 63

/-- A member of a list of nonnegative terms lies between `0` and the sum. -/
theorem le_sum_of_nonneg {α : Type} {l : List α} {f : α → Int} (h : ∀ x ∈ l, 0 ≤ f x) {x : α}
    (hx : x ∈ l) : 0 ≤ f x ∧ f x ≤ (l.map f).sum :=
  ⟨h x hx, List.single_le_sum (List.forall_mem_map.2 h) _ (List.mem_map_of_mem f hx)⟩

section Exact

variable {b : BackupInfo} (hfit : b.LogsFit)
include hfit

/-- Every level of a backup whose binlogs fit holds a number of bytes in `[0, b.logSize]`. -/
theorem BackupInfo.LogsFit.bounds :
    ∀ c ∈ b.collectionBackups, (0 ≤ c.logSize ∧ c.logSize ≤ b.logSize) ∧
      ∀ p ∈ c.partitionBackups, (0 ≤ p.logSize ∧ p.logSize ≤ c.logSize) ∧
        ∀ seg ∈ p.segmentBackups, 0 ≤ seg.logSizes.sum ∧ seg.logSizes.sum ≤ p.logSize := by
  have hseg : ∀ c ∈ b.collectionBackups, ∀ p ∈ c.partitionBackups, ∀ seg ∈ p.segmentBackups,
      0 ≤ seg.logSizes.sum := fun c hc p hp seg hs =>
    hfit.1 seg (BackupInfo.mem_allSegments.2 ⟨c, hc, p, hp, hs⟩)
  have hpart : ∀ c ∈ b.collectionBackups, ∀ p ∈ c.partitionBackups, 0 ≤ p.logSize :=
    fun c hc p hp => List.sum_nonneg (List.forall_mem_map.2 (hseg c hc p hp))
  have hcoll : ∀ c ∈ b.collectionBackups, 0 ≤ c.logSize :=
    fun c hc => List.sum_nonneg (List.forall_mem_map.2 (hpart c hc))
  exact fun c hc => ⟨le_sum_of_nonneg hcoll hc, fun p hp =>
    ⟨le_sum_of_nonneg (hpart c hc) hp, fun seg hs => le_sum_of_nonneg (hseg c hc p hp) hs⟩⟩

/-- An `int64` sum of a number of bytes between `0` and the backup's is the sum itself. -/
theorem BackupInfo.LogsFit.toInt64_eq {x : Int} (h₀ : 0 ≤ x) (hx : x ≤ b.logSize) :
    Go.toInt64 x = x :=
  Go.toInt64_of_range (by omega) (lt_of_le_of_lt hx hfit.2)

variable (h : b.SizesAddUp Go.sumInt64)
include h

/-- **Sizes that fit are exact**: when the binlogs of a backup fit, every `int64` sum of its
tree is the sum itself, and each level holds the bytes of the binlogs under it. -/
theorem BackupInfo.SizesAddUp.logSize_eq :
    ∀ c ∈ b.collectionBackups, c.size = c.logSize ∧ ∀ p ∈ c.partitionBackups,
      p.size = p.logSize ∧ ∀ seg ∈ p.segmentBackups, seg.size = seg.logSizes.sum := by
  intro c hc
  obtain ⟨hcb, hbounds⟩ := hfit.bounds c hc
  have hseg : ∀ p ∈ c.partitionBackups, ∀ seg ∈ p.segmentBackups, seg.size = seg.logSizes.sum :=
    fun p hp seg hs => by
      obtain ⟨h₀, hle⟩ := (hbounds p hp).2 seg hs
      rw [h.segment seg (BackupInfo.mem_allSegments.2 ⟨c, hc, p, hp, hs⟩), Go.sumInt64_eq,
        hfit.toInt64_eq h₀ (hle.trans ((hbounds p hp).1.2.trans hcb.2))]
  have hpart : ∀ p ∈ c.partitionBackups, p.size = p.logSize := fun p hp => by
    rw [h.partition c hc p hp, Go.sumInt64_eq, List.map_congr_left (hseg p hp)]
    exact hfit.toInt64_eq (hbounds p hp).1.1 ((hbounds p hp).1.2.trans hcb.2)
  refine ⟨?_, fun p hp => ⟨hpart p hp, hseg p hp⟩⟩
  rw [h.collection c hc, Go.sumInt64_eq, List.map_congr_left hpart]
  exact hfit.toInt64_eq hcb.1 hcb.2

/-- The exact sums of `BackupInfo.SizesAddUp.logSize_eq`, level by level. -/
theorem BackupInfo.SizesAddUp.exact : b.SizesAddUp List.sum := by
  have hsizes := h.logSize_eq hfit
  have hcoll : ∀ c ∈ b.collectionBackups, c.size = c.logSize := fun c hc => (hsizes c hc).1
  refine ⟨fun seg hs => ?_, fun c hc p hp => ?_, fun c hc => ?_, ?_⟩
  · obtain ⟨c, hc, p, hp, hs⟩ := BackupInfo.mem_allSegments.1 hs
    exact ((hsizes c hc).2 p hp).2 seg hs
  · rw [((hsizes c hc).2 p hp).1, PartitionBackupInfo.logSize,
      List.map_congr_left ((hsizes c hc).2 p hp).2]
  · rw [(hsizes c hc).1, CollectionBackupInfo.logSize,
      List.map_congr_left fun p hp => ((hsizes c hc).2 p hp).1]
  · rw [h.backup, Go.sumInt64_eq, List.map_congr_left hcoll]
    exact hfit.toInt64_eq (List.sum_nonneg (List.forall_mem_map.2 fun c hc => (hfit.bounds c hc).1.1))
      le_rfl

end Exact

/-! ### The sizes `GetFullMeta` joins -/

/-- Every segment record the MetaManager holds is sized by its binlogs. -/
def SegmentsSized : Invariant := fun m _ _ => ∀ seg ∈ m.segments, seg.SizeConsistent

/-- **The sizes of a full meta add up**: from a MetaManager whose segment records are sized by
their binlogs, `GetFullMeta` joins a tree whose sizes add up in `int64`. -/
theorem MetaManager.getFullMeta_sizesAddUp {m : MetaManager}
    (hm : ∀ seg ∈ m.segments, seg.SizeConsistent) {id : String} {b : BackupInfo}
    (hb : m.getFullMeta id = some b) : b.SizesAddUp Go.sumInt64 := by
  have hseg : ∀ seg ∈ b.allSegments, seg.size = Go.sumInt64 seg.logSizes := fun seg hs =>
    seg.sizeConsistent_iff.1 (hm seg (m.mem_segments_of_getFullMeta hb hs))
  obtain ⟨b', -, rfl⟩ := Option.map_eq_some'.mp hb
  refine ⟨hseg, fun c hc p hp => ?_, fun c hc => ?_, rfl⟩
  · obtain ⟨c', -, rfl⟩ := List.mem_map.1 hc
    obtain ⟨p', -, rfl⟩ := List.mem_map.1 hp
    rfl
  · obtain ⟨c', -, rfl⟩ := List.mem_map.1 hc
    rfl

/-! ### Along every schedule -/

/-- A collection job of any backup keeps its segment records sized: prepare adds empty records
of size `0`, a fill writes binlogs with their sum, a copy neither. -/
theorem keptByJob_segmentsSized (id : String) : KeptByJob id SegmentsSized where
  addCollection _ _ _ _ _ h := h
  updateCollection _ _ _ _ _ h := h
  addPartition _ _ _ _ h := h
  addSegment seg m _ _ h := fun s hs => by
    rcases (mem_upsert _).1 hs with rfl | ⟨hs, -⟩
    · rfl
    · exact h s hs
  updateSegment sid opts m _ _ hopts h := fun s hs => by
    rw [MetaManager.updateSegment_segments, List.mem_map] at hs
    obtain ⟨s', hs', rfl⟩ := hs
    split
    · exact hopts.sizeConsistent (h s' hs')
    · exact h s' hs'
  copyPool _ _ _ _ h := h

theorem executeCreateBackup_keeps_segmentsSized (ctx : Ctx) (request : CreateBackupRequest)
    (backupInfo : BackupInfo) (s : Setting) :
    Keeps SegmentsSized (fun _ => True) (executeCreateBackup ctx request backupInfo) s :=
  executeCreateBackup_keeps_events ctx request backupInfo
    (fun j _ _ _ _ _ => keptByJob_segmentsSized j.2.backupId) (fun _ _ _ _ h => h)
    (fun _ _ _ _ _ h => h) (fun _ _ _ _ h _ => h) (fun _ _ _ _ h => h) (fun _ => trivial)
    (fun _ _ => trivial) fun _ _ => trivial

/-- Along every schedule from a fresh server, every segment record is sized by its binlogs. -/
theorem Server.run_segmentsSized (s : Setting) (actions : List Action) :
    (freshServer.run s actions).world.Holds SegmentsSized :=
  Server.run_keeps (fun _ _ _ _ h => h) (fun ctx request backupInfo =>
    executeCreateBackup_keeps_segmentsSized ctx request backupInfo s) actions
    fun _ h => absurd h (List.not_mem_nil _)

/-- The sizes of every backup tree `GetFullMeta` joins from `m` add up in `int64`, and exactly
when its binlogs fit. -/
def MetaManager.FullMetaSized (m : MetaManager) : Prop :=
  ∀ backupId b, m.getFullMeta backupId = some b →
    b.SizesAddUp Go.sumInt64 ∧ (b.LogsFit → b.SizesAddUp List.sum)

/-- **The sizes of a backup add up**: in every state a server reaches along any schedule of
`CreateBackup` requests and task runs – so for every backup that has succeeded – the full meta
of every backup has, at each level, the `int64` sum of the sizes one level down as its size,
and at its segments the `int64` sum of their insert and delta binlogs' sizes; each sum is exact
when the binlogs of every segment add up to a nonnegative size and all of them to less than
`2^63` bytes. -/
theorem server_run_fullMeta_sizes (s : Setting) (actions : List Action) :
    (freshServer.run s actions).world.meta.FullMetaSized := fun _ _ hb =>
  have h := MetaManager.getFullMeta_sizesAddUp (Server.run_segmentsSized s actions) hb
  ⟨h, h.exact⟩

/-- The sizes of a backup tree, collection by collection, partition by partition. -/
def BackupInfo.sizes (b : BackupInfo) : Int × List (Int × List (Int × List Int)) :=
  (b.size, b.collectionBackups.map fun c => (c.size, c.partitionBackups.map fun p =>
    (p.size, p.segmentBackups.map SegmentBackupInfo.size)))

/-- A successful backup of a segment of `10` bytes has the size `10` at every level. -/
example : ((executeCreateBackup .request dailyRequest dailyTask ⟨dailyConfig, oneSegmentEnv, none⟩
    dailyWorld).2.meta.getFullMeta "r1").map BackupInfo.sizes = some (10, [(10, [(10, [10])])]) := by
  decide

/-- `oneSegmentEnv`, where segment `7` has two insert binlogs of `2^62` bytes. -/
def hugeSegmentEnv : Env := { oneSegmentEnv with listWithPrefix := hugeListingEnv.listWithPrefix }

set_option maxRecDepth 2000 in
/-- A backup of `2^63` bytes succeeds, and its full meta has the size `-2^63` at every level:
the sum of its two binlogs of `2^62` bytes, wrapped into `int64`. -/
theorem executeCreateBackup_huge_sizes :
    (executeCreateBackup .request dailyRequest dailyTask ⟨dailyConfig, hugeSegmentEnv, none⟩
      dailyWorld).1 = none ∧
    ((executeCreateBackup .request dailyRequest dailyTask ⟨dailyConfig, hugeSegmentEnv, none⟩
      dailyWorld).2.meta.getBackup "r1").map BackupInfo.stateCode = some .backupSuccess ∧
    ((executeCreateBackup .request dailyRequest dailyTask ⟨dailyConfig, hugeSegmentEnv, none⟩
      dailyWorld).2.meta.getFullMeta "r1").map BackupInfo.sizes =
      some (-2 ^ 63, [(-2 ^ 63, [(-2 ^ 63, [-2 ^ 63])])]) ∧
    ((executeCreateBackup .request dailyRequest dailyTask ⟨dailyConfig, hugeSegmentEnv, none⟩
      dailyWorld).2.meta.getFullMeta "r1").map (fun b => b.allSegments.map fun seg =>
        seg.logSizes.sum) = some [2 ^ 63] := by
  decide

end MilvusBackup
