import MilvusBackup.Proto
import Mathlib.Data.List.Nodup

/-!
# The MetaManager

The MetaManager is the in-memory store every step of a backup writes to and every reader of a
task reads from. Its code is not part of the source, only its calls are; it is modelled here from
the spec (§4.D, §9): a normalized store of flat tables, joined on demand.

| table | key |
|---|---|
| backups | the backup id, with a name-to-id index |
| collections | `(backup id, collection id)` |
| partitions | `(collection id, partition id)` |
| segments | the segment id |

Every `Add…` is an **upsert** by its key and every `Update…` applies an option set to the
record under its key, which is what makes a retried prepare safe to re-enter. The key of a
partition or a segment holds no backup id, so two backups of one collection share these
records; `MilvusBackup.MetaManager.getFullMeta` joins whatever the tables hold, and adds up the
sizes of each level's children.

The segment table carries its key invariant (`MilvusBackup.MetaManager.segments_nodup`): a
segment id is recorded once, so a lookup by id is a lookup of a record.
-/

namespace MilvusBackup

/-! ### Maps that fix what a lookup finds -/

section Fix

variable {α : Type} {p : α → Bool} {f : α → α}

/-- A map that keeps `p` and fixes the elements satisfying it changes neither the elements
satisfying `p` nor the first of them. -/
theorem filter_map_of_fix (hp : ∀ x, p (f x) = p x) (hf : ∀ x, p x → f x = x) (l : List α) :
    (l.map f).filter p = l.filter p := by
  induction l with
  | nil => rfl
  | cons x l ih =>
    by_cases hx : p x
    · simp only [List.map_cons, List.filter_cons, hp, hx, if_true, hf x hx, ih]
    · simp only [List.map_cons, List.filter_cons, hp, hx, Bool.false_eq_true, if_false, ih]

@[inherit_doc filter_map_of_fix]
theorem find?_map_of_fix (hp : ∀ x, p (f x) = p x) (hf : ∀ x, p x → f x = x) (l : List α) :
    (l.map f).find? p = l.find? p := by
  induction l with
  | nil => rfl
  | cons x l ih =>
    by_cases hx : p x
    · simp only [List.map_cons, List.find?_cons, hp, hx, hf x hx]
    · simp only [List.map_cons, List.find?_cons, hp, hx, ih]

end Fix

/-! ### Keyed lists -/

section Upsert

variable {α κ : Type} [DecidableEq κ] (key : α → κ)

/-- `l` with every element keyed like `x` replaced by `x`, or `x` appended when there is none:
the write of a Go map. -/
def upsert (x : α) (l : List α) : List α :=
  if l.any (fun y => key y = key x) then l.map (fun y => if key y = key x then x else y)
  else l ++ [x]

theorem mem_upsert {x y : α} {l : List α} :
    y ∈ upsert key x l ↔ y = x ∨ (y ∈ l ∧ key y ≠ key x) := by
  unfold upsert
  split
  · rename_i h
    obtain ⟨z, hz, hzk⟩ := List.any_eq_true.mp h
    simp only [List.mem_map]
    constructor
    · rintro ⟨z', hz', rfl⟩
      split <;> simp_all
    · rintro (rfl | ⟨hy, hk⟩)
      · exact ⟨z, hz, by simp_all⟩
      · exact ⟨y, hy, if_neg hk⟩
  · rename_i h
    simp only [List.any_eq_true, decide_eq_true_eq, not_exists, not_and] at h
    simp only [List.mem_append, List.mem_singleton]
    constructor
    · rintro (hy | rfl)
      · exact .inr ⟨hy, h y hy⟩
      · exact .inl rfl
    · rintro (rfl | ⟨hy, -⟩)
      · exact .inr rfl
      · exact .inl hy

/-- A key the list does not hold is appended. -/
theorem upsert_of_forall_ne {x : α} {l : List α} (h : ∀ y ∈ l, key y ≠ key x) :
    upsert key x l = l ++ [x] :=
  if_neg (by simpa using h)

theorem upsert_keys_nodup {x : α} {l : List α} (h : (l.map key).Nodup) :
    ((upsert key x l).map key).Nodup := by
  unfold upsert
  split
  · rename_i hx
    obtain ⟨z, hz, hzk⟩ := List.any_eq_true.mp hx
    rwa [List.map_map, show (key ∘ fun y => if key y = key x then x else y) = key from
      funext fun y => by by_cases hy : key y = key x <;> simp [hy]]
  · rename_i hx
    simp only [List.any_eq_true, decide_eq_true_eq, not_exists, not_and] at hx
    rw [List.map_append, List.nodup_append]
    refine ⟨h, List.nodup_singleton _, ?_⟩
    simp only [List.map_cons, List.map_nil, List.disjoint_singleton, List.mem_map, not_exists,
      not_and]
    exact fun y hy hk => hx y hy hk

/-- An upsert of an element `p` rejects, keyed so that every element of its key is rejected
too, leaves the elements `p` accepts as they are. -/
theorem filter_upsert_of_not {p : α → Bool} {x : α} (hx : p x = false)
    (hk : ∀ y, key y = key x → p y = false) (l : List α) :
    (upsert key x l).filter p = l.filter p := by
  unfold upsert
  split
  · refine filter_map_of_fix (fun y => ?_) (fun y hy => ?_) l
    · by_cases h : key y = key x
      · rw [if_pos h, hx, hk y h]
      · rw [if_neg h]
    · rw [if_neg fun h => by simp [hk y h] at hy]
  · simp [List.filter_append, hx]

/-- A second upsert of a key overwrites the first. -/
theorem upsert_upsert {x₁ x₂ : α} (hk : key x₁ = key x₂) (l : List α) :
    upsert key x₂ (upsert key x₁ l) = upsert key x₂ l := by
  have hany : (upsert key x₁ l).any (fun y => key y = key x₂) :=
    List.any_eq_true.2 ⟨x₁, (mem_upsert key).2 (Or.inl rfl), by simp [hk]⟩
  rw [show upsert key x₂ (upsert key x₁ l) = _ from if_pos hany]
  unfold upsert
  simp only [hk]
  split
  · rw [List.map_map]
    refine List.map_congr_left fun y _ => ?_
    by_cases hy : key y = key x₂ <;> simp [hy, hk]
  · rename_i h
    simp only [List.any_eq_true, decide_eq_true_eq, not_exists, not_and] at h
    simp only [List.map_append, List.map_cons, List.map_nil, hk, if_true]
    congr 1
    exact (List.map_congr_left fun y hy => if_neg (h y hy)).trans (List.map_id' l)

/-- An upsert overwrites what a map did to the elements of its key, when the map keeps keys and
leaves the other elements alone. -/
theorem upsert_map_of_fix {x : α} {f : α → α} (hk : ∀ y, key (f y) = key y)
    (hf : ∀ y, key y ≠ key x → f y = y) (l : List α) :
    upsert key x (l.map f) = upsert key x l := by
  unfold upsert
  simp only [List.any_map, Function.comp_def, hk, List.map_map]
  split
  · refine List.map_congr_left fun y _ => ?_
    by_cases hy : key y = key x
    · simp [hy, hk]
    · simp [hy, hk, hf y hy]
  · rename_i h
    simp only [List.any_eq_true, decide_eq_true_eq, not_exists, not_and, Bool.not_eq_true] at h
    congr 1
    exact (List.map_congr_left fun y hy => hf y (by simpa using h y hy)).trans (List.map_id' l)
end Upsert

/-! ### Option sets -/

/-- The option set of `UpdateBackup`: `setStateCode`, `setErrorMessage`, `setEndTime`. -/
inductive BackupOpt
  | setStateCode (c : BackupTaskStateCode)
  | setErrorMessage (m : String)
  | setEndTime (t : Int)
  deriving DecidableEq

/-- The option set of `UpdateCollection`. -/
inductive CollectionOpt
  | setCollectionChannelCheckpoints (cps : List (String × String))
  | setCollectionBackupTimestamp (t : Nat)
  | setCollectionBackupPhysicalTimestamp (t : Nat)
  | setCollectionLoadState (s : String)
  | setCollectionSize (n : Int)
  | setCollectionEndTime (t : Int)

/-- The option set of `UpdateSegment`, and the two fields `copySegment` writes through the
pointer `GetSegment` hands out (`GroupId` and `Backuped`). -/
inductive SegmentOpt
  | setSegmentBinlogs (l : List FieldBinlog)
  | setSegmentDeltaBinlogs (l : List FieldBinlog)
  | setSegmentSize (n : Int)
  | setGroupId (g : Int)
  | setBackuped (b : Bool)

/-- One option applied to a backup record. The record is taken apart, so that evaluating a run
never copies it. -/
def BackupOpt.apply : BackupOpt → BackupInfo → BackupInfo
  | .setStateCode c, ⟨i, _, m, st, et, n, v, sz, cs⟩ => ⟨i, c, m, st, et, n, v, sz, cs⟩
  | .setErrorMessage m, ⟨i, c, _, st, et, n, v, sz, cs⟩ => ⟨i, c, m, st, et, n, v, sz, cs⟩
  | .setEndTime t, ⟨i, c, m, st, _, n, v, sz, cs⟩ => ⟨i, c, m, st, t, n, v, sz, cs⟩

/-- One option applied to a collection record. -/
def CollectionOpt.apply : CollectionOpt → CollectionBackupInfo → CollectionBackupInfo
  | .setCollectionChannelCheckpoints cps,
      ⟨i, c, st, et, ci, db, n, sc, sh, cl, hi, ii, ls, _, bt, bp, sz, ps⟩ =>
    ⟨i, c, st, et, ci, db, n, sc, sh, cl, hi, ii, ls, cps, bt, bp, sz, ps⟩
  | .setCollectionBackupTimestamp t,
      ⟨i, c, st, et, ci, db, n, sc, sh, cl, hi, ii, ls, cp, _, bp, sz, ps⟩ =>
    ⟨i, c, st, et, ci, db, n, sc, sh, cl, hi, ii, ls, cp, t, bp, sz, ps⟩
  | .setCollectionBackupPhysicalTimestamp t,
      ⟨i, c, st, et, ci, db, n, sc, sh, cl, hi, ii, ls, cp, bt, _, sz, ps⟩ =>
    ⟨i, c, st, et, ci, db, n, sc, sh, cl, hi, ii, ls, cp, bt, t, sz, ps⟩
  | .setCollectionLoadState l,
      ⟨i, c, st, et, ci, db, n, sc, sh, cl, hi, ii, _, cp, bt, bp, sz, ps⟩ =>
    ⟨i, c, st, et, ci, db, n, sc, sh, cl, hi, ii, l, cp, bt, bp, sz, ps⟩
  | .setCollectionSize z,
      ⟨i, c, st, et, ci, db, n, sc, sh, cl, hi, ii, ls, cp, bt, bp, _, ps⟩ =>
    ⟨i, c, st, et, ci, db, n, sc, sh, cl, hi, ii, ls, cp, bt, bp, z, ps⟩
  | .setCollectionEndTime t,
      ⟨i, c, st, _, ci, db, n, sc, sh, cl, hi, ii, ls, cp, bt, bp, sz, ps⟩ =>
    ⟨i, c, st, t, ci, db, n, sc, sh, cl, hi, ii, ls, cp, bt, bp, sz, ps⟩

/-- One option applied to a segment record. -/
def SegmentOpt.apply : SegmentOpt → SegmentBackupInfo → SegmentBackupInfo
  | .setSegmentBinlogs l, ⟨s, c, p, n, g, _, d, sz, b⟩ => ⟨s, c, p, n, g, l, d, sz, b⟩
  | .setSegmentDeltaBinlogs l, ⟨s, c, p, n, g, i, _, sz, b⟩ => ⟨s, c, p, n, g, i, l, sz, b⟩
  | .setSegmentSize z, ⟨s, c, p, n, g, i, d, _, b⟩ => ⟨s, c, p, n, g, i, d, z, b⟩
  | .setGroupId g, ⟨s, c, p, n, _, i, d, sz, b⟩ => ⟨s, c, p, n, g, i, d, sz, b⟩
  | .setBackuped b, ⟨s, c, p, n, g, i, d, sz, _⟩ => ⟨s, c, p, n, g, i, d, sz, b⟩

/-- An option set applied in order. -/
def applyOpts {α β : Type} (apply : α → β → β) (opts : List α) (x : β) : β :=
  opts.foldl (fun x o => apply o x) x

@[simp] theorem BackupOpt.apply_id (o : BackupOpt) (b : BackupInfo) : (o.apply b).id = b.id := by
  cases o <;> rfl

@[simp] theorem BackupOpt.apply_name (o : BackupOpt) (b : BackupInfo) :
    (o.apply b).name = b.name := by
  cases o <;> rfl

@[simp] theorem CollectionOpt.apply_id (o : CollectionOpt) (c : CollectionBackupInfo) :
    (o.apply c).id = c.id := by
  cases o <;> rfl

@[simp] theorem CollectionOpt.apply_collectionId (o : CollectionOpt) (c : CollectionBackupInfo) :
    (o.apply c).collectionId = c.collectionId := by
  cases o <;> rfl

@[simp] theorem SegmentOpt.apply_segmentId (o : SegmentOpt) (s : SegmentBackupInfo) :
    (o.apply s).segmentId = s.segmentId := by
  cases o <;> rfl

@[simp] theorem SegmentOpt.apply_partitionId (o : SegmentOpt) (s : SegmentBackupInfo) :
    (o.apply s).partitionId = s.partitionId := by
  cases o <;> rfl

@[simp] theorem SegmentOpt.apply_collectionId (o : SegmentOpt) (s : SegmentBackupInfo) :
    (o.apply s).collectionId = s.collectionId := by
  cases o <;> rfl

/-- A field every option keeps is kept by every option set. -/
theorem applyOpts_keep {α β γ : Type} {apply : α → β → β} (f : β → γ)
    (h : ∀ o x, f (apply o x) = f x) (opts : List α) (x : β) : f (applyOpts apply opts x) = f x := by
  induction opts generalizing x with
  | nil => rfl
  | cons o opts ih => exact (ih _).trans (h o x)

/-- A backup record with `opts` applied when its id is `id`. The record is taken apart once,
so that evaluating a run never copies it. -/
def BackupInfo.updateWhen (id : String) (opts : List BackupOpt) : BackupInfo → BackupInfo
  | ⟨i, c, m, st, et, n, v, sz, cs⟩ =>
    if i = id then applyOpts BackupOpt.apply opts ⟨i, c, m, st, et, n, v, sz, cs⟩
    else ⟨i, c, m, st, et, n, v, sz, cs⟩

/-- A collection record with `opts` applied when it is the collection `collectionId` of the
backup `id`. -/
def CollectionBackupInfo.updateWhen (id : String) (collectionId : Int)
    (opts : List CollectionOpt) : CollectionBackupInfo → CollectionBackupInfo
  | ⟨i, c, st, et, ci, db, n, sc, sh, cl, hi, ii, ls, cp, bt, bp, sz, ps⟩ =>
    if i = id ∧ ci = collectionId then
      applyOpts CollectionOpt.apply opts ⟨i, c, st, et, ci, db, n, sc, sh, cl, hi, ii, ls, cp, bt, bp, sz, ps⟩
    else ⟨i, c, st, et, ci, db, n, sc, sh, cl, hi, ii, ls, cp, bt, bp, sz, ps⟩

/-- A segment record with `opts` applied when its id is `segmentId`. -/
def SegmentBackupInfo.updateWhen (segmentId : Int) (opts : List SegmentOpt) :
    SegmentBackupInfo → SegmentBackupInfo
  | ⟨s, c, p, n, g, i, d, sz, b⟩ =>
    if s = segmentId then applyOpts SegmentOpt.apply opts ⟨s, c, p, n, g, i, d, sz, b⟩
    else ⟨s, c, p, n, g, i, d, sz, b⟩

@[simp] theorem BackupInfo.updateWhen_eq (id : String) (opts : List BackupOpt) (b : BackupInfo) :
    b.updateWhen id opts = if b.id = id then applyOpts BackupOpt.apply opts b else b := rfl

@[simp] theorem CollectionBackupInfo.updateWhen_eq (id : String) (collectionId : Int)
    (opts : List CollectionOpt) (c : CollectionBackupInfo) :
    c.updateWhen id collectionId opts =
      if c.id = id ∧ c.collectionId = collectionId then applyOpts CollectionOpt.apply opts c
      else c := rfl

@[simp] theorem SegmentBackupInfo.updateWhen_eq (segmentId : Int) (opts : List SegmentOpt)
    (s : SegmentBackupInfo) :
    s.updateWhen segmentId opts =
      if s.segmentId = segmentId then applyOpts SegmentOpt.apply opts s else s := rfl

/-- An update keeps the keys of the record it updates. -/
@[simp] theorem BackupInfo.updateWhen_id (id : String) (opts : List BackupOpt) (b : BackupInfo) :
    (b.updateWhen id opts).id = b.id := by
  rw [BackupInfo.updateWhen_eq]
  split
  · exact applyOpts_keep _ BackupOpt.apply_id _ _
  · rfl

@[inherit_doc BackupInfo.updateWhen_id, simp]
theorem CollectionBackupInfo.updateWhen_id (id : String) (collectionId : Int)
    (opts : List CollectionOpt) (c : CollectionBackupInfo) :
    (c.updateWhen id collectionId opts).id = c.id := by
  rw [CollectionBackupInfo.updateWhen_eq]
  split
  · exact applyOpts_keep _ CollectionOpt.apply_id _ _
  · rfl

@[inherit_doc BackupInfo.updateWhen_id, simp]
theorem CollectionBackupInfo.updateWhen_collectionId (id : String) (collectionId : Int)
    (opts : List CollectionOpt) (c : CollectionBackupInfo) :
    (c.updateWhen id collectionId opts).collectionId = c.collectionId := by
  rw [CollectionBackupInfo.updateWhen_eq]
  split
  · exact applyOpts_keep _ CollectionOpt.apply_collectionId _ _
  · rfl

/-- A field every collection option keeps is kept by an update. -/
theorem CollectionBackupInfo.updateWhen_keep {γ : Type} (f : CollectionBackupInfo → γ)
    (h : ∀ o c, f (CollectionOpt.apply o c) = f c) (id : String) (collectionId : Int)
    (opts : List CollectionOpt) (c : CollectionBackupInfo) :
    f (c.updateWhen id collectionId opts) = f c := by
  rw [CollectionBackupInfo.updateWhen_eq]
  split
  · exact applyOpts_keep f h _ _
  · rfl

/-! ### The store -/

/-- Modelled from the spec: the MetaManager (§4.D) is not in the source. A normalized store of
flat tables – backups by id and by name, collections by `(backup id, collection id)`, partitions
by `(collection id, partition id)`, segments by segment id – with the index from a collection id
to the backup that last added it, through which `GetBackupBySegmentID` resolves a segment. -/
structure MetaManager where
  backups : List BackupInfo
  backupNameIds : List (String × String)
  collections : List CollectionBackupInfo
  collectionBackupIds : List (Int × String)
  partitions : List PartitionBackupInfo
  segments : List SegmentBackupInfo
  segments_nodup : (segments.map SegmentBackupInfo.segmentId).Nodup

namespace MetaManager

/-- `newMetaManager()`. -/
def empty : MetaManager := ⟨[], [], [], [], [], [], List.nodup_nil⟩

variable (m : MetaManager)

/-- `AddBackup`. -/
def addBackup (b : BackupInfo) : MetaManager → MetaManager
  | ⟨bs, names, cs, cids, ps, segs, h⟩ =>
    ⟨upsert BackupInfo.id b bs, upsert Prod.fst (b.name, b.id) names, cs, cids, ps, segs, h⟩

/-- `UpdateBackup(id, opts...)`. -/
def updateBackup (id : String) (opts : List BackupOpt) : MetaManager → MetaManager
  | ⟨bs, names, cs, cids, ps, segs, h⟩ =>
    ⟨bs.map (BackupInfo.updateWhen id opts), names, cs, cids, ps, segs, h⟩

/-- `GetBackup(id)`. -/
def getBackup (id : String) : Option BackupInfo := m.backups.find? (·.id = id)

/-- `GetBackupByName(name)`. -/
def getBackupByName (name : String) : Option BackupInfo :=
  (m.backupNameIds.lookup name).bind m.getBackup

/-- `AddCollection`. -/
def addCollection (c : CollectionBackupInfo) : MetaManager → MetaManager
  | ⟨bs, names, cs, cids, ps, segs, h⟩ =>
    ⟨bs, names, upsert (fun c : CollectionBackupInfo => (c.id, c.collectionId)) c cs,
      upsert Prod.fst (c.collectionId, c.id) cids, ps, segs, h⟩

/-- `UpdateCollection(backupId, collectionId, opts...)`. -/
def updateCollection (id : String) (collectionId : Int) (opts : List CollectionOpt) :
    MetaManager → MetaManager
  | ⟨bs, names, cs, cids, ps, segs, h⟩ =>
    ⟨bs, names, cs.map (CollectionBackupInfo.updateWhen id collectionId opts), cids, ps, segs, h⟩

/-- `GetCollections(backupId)`. -/
def getCollections (id : String) : List CollectionBackupInfo :=
  m.collections.filter (·.id = id)

/-- `AddPartition`. -/
def addPartition (p : PartitionBackupInfo) : MetaManager → MetaManager
  | ⟨bs, names, cs, cids, ps, segs, h⟩ =>
    ⟨bs, names, cs, cids,
      upsert (fun p : PartitionBackupInfo => (p.collectionId, p.partitionId)) p ps, segs, h⟩

/-- `GetPartitions(collectionId)`. -/
def getPartitions (collectionId : Int) : List PartitionBackupInfo :=
  m.partitions.filter (·.collectionId = collectionId)

/-- `AddSegment`. -/
def addSegment (s : SegmentBackupInfo) : MetaManager → MetaManager
  | ⟨bs, names, cs, cids, ps, segs, h⟩ =>
    ⟨bs, names, cs, cids, ps, upsert SegmentBackupInfo.segmentId s segs, upsert_keys_nodup _ h⟩

/-- `UpdateSegment(partitionId, segmentId, opts...)`: the segment is found by its id. -/
def updateSegment (segmentId : Int) (opts : List SegmentOpt) : MetaManager → MetaManager
  | ⟨bs, names, cs, cids, ps, segs, h⟩ =>
    ⟨bs, names, cs, cids, ps,
      segs.map (SegmentBackupInfo.updateWhen segmentId opts),
      by
        rw [List.map_map]
        convert h using 2
        funext s
        simp only [Function.comp, SegmentBackupInfo.updateWhen_eq]
        split
        · exact applyOpts_keep _ SegmentOpt.apply_segmentId _ _
        · rfl⟩

/-- `GetSegments(partitionId)`. -/
def getSegments (partitionId : Int) : List SegmentBackupInfo :=
  m.segments.filter (·.partitionId = partitionId)

/-- `GetSegment(segmentId)`. -/
def getSegment (segmentId : Int) : Option SegmentBackupInfo :=
  m.segments.find? (·.segmentId = segmentId)

/-- `GetBackupBySegmentID(segmentId)`: the backup that last added the segment's collection. -/
def getBackupBySegmentID (segmentId : Int) : Option BackupInfo :=
  (m.getSegment segmentId).bind fun s =>
    (m.collectionBackupIds.lookup s.collectionId).bind m.getBackup

/-- `GetFullMeta(id)`: the backup record with its collections, their partitions and these
partitions' segments joined from the tables. The tree is materialized (spec §3, §4.D): the size of
a partition is the sum of its segments' sizes, a collection's the sum of its partitions' and the
backup's the sum of its collections', added up in `int64` as the fields are. -/
def getFullMeta (id : String) : Option BackupInfo :=
  (m.getBackup id).map fun b =>
    let collectionBackups := (m.getCollections id).map fun c =>
      let partitionBackups := (m.getPartitions c.collectionId).map fun p =>
        let segmentBackups := m.getSegments p.partitionId
        { p with segmentBackups := segmentBackups,
                 size := Go.sumInt64 (segmentBackups.map (·.size)) }
      { c with partitionBackups := partitionBackups,
               size := Go.sumInt64 (partitionBackups.map (·.size)) }
    { b with collectionBackups := collectionBackups,
             size := Go.sumInt64 (collectionBackups.map (·.size)) }

/-! ### What each operation leaves alone -/

@[simp] theorem updateBackup_backups (id opts) :
    (m.updateBackup id opts).backups = m.backups.map (BackupInfo.updateWhen id opts) := rfl
@[simp] theorem addCollection_collections (c) :
    (m.addCollection c).collections =
      upsert (fun c : CollectionBackupInfo => (c.id, c.collectionId)) c m.collections := rfl
@[simp] theorem updateCollection_collections (id cid opts) :
    (m.updateCollection id cid opts).collections =
      m.collections.map (CollectionBackupInfo.updateWhen id cid opts) := rfl
@[simp] theorem addPartition_partitions (p) :
    (m.addPartition p).partitions =
      upsert (fun p : PartitionBackupInfo => (p.collectionId, p.partitionId)) p m.partitions := rfl
@[simp] theorem addBackup_backups (b) :
    (m.addBackup b).backups = upsert BackupInfo.id b m.backups := rfl
@[simp] theorem addBackup_collections (b) : (m.addBackup b).collections = m.collections := rfl
@[simp] theorem addBackup_partitions (b) : (m.addBackup b).partitions = m.partitions := rfl
@[simp] theorem addBackup_segments (b) : (m.addBackup b).segments = m.segments := rfl
@[simp] theorem updateBackup_collections (id opts) :
    (m.updateBackup id opts).collections = m.collections := rfl
@[simp] theorem updateBackup_partitions (id opts) :
    (m.updateBackup id opts).partitions = m.partitions := rfl
@[simp] theorem updateBackup_segments (id opts) :
    (m.updateBackup id opts).segments = m.segments := rfl
@[simp] theorem updateBackup_backupNameIds (id opts) :
    (m.updateBackup id opts).backupNameIds = m.backupNameIds := rfl
@[simp] theorem addCollection_backups (c) : (m.addCollection c).backups = m.backups := rfl
@[simp] theorem addCollection_partitions (c) : (m.addCollection c).partitions = m.partitions := rfl
@[simp] theorem addCollection_segments (c) : (m.addCollection c).segments = m.segments := rfl
@[simp] theorem updateCollection_backups (id cid opts) :
    (m.updateCollection id cid opts).backups = m.backups := rfl
@[simp] theorem updateCollection_partitions (id cid opts) :
    (m.updateCollection id cid opts).partitions = m.partitions := rfl
@[simp] theorem updateCollection_segments (id cid opts) :
    (m.updateCollection id cid opts).segments = m.segments := rfl
@[simp] theorem addPartition_backups (p) : (m.addPartition p).backups = m.backups := rfl
@[simp] theorem addPartition_collections (p) : (m.addPartition p).collections = m.collections :=
  rfl
@[simp] theorem addPartition_segments (p) : (m.addPartition p).segments = m.segments := rfl
@[simp] theorem addSegment_backups (s) : (m.addSegment s).backups = m.backups := rfl
@[simp] theorem addSegment_collections (s) : (m.addSegment s).collections = m.collections := rfl
@[simp] theorem addSegment_partitions (s) : (m.addSegment s).partitions = m.partitions := rfl
@[simp] theorem addSegment_segments (s) :
    (m.addSegment s).segments = upsert SegmentBackupInfo.segmentId s m.segments := rfl
@[simp] theorem updateSegment_backups (sid opts) :
    (m.updateSegment sid opts).backups = m.backups := rfl
@[simp] theorem updateSegment_collections (sid opts) :
    (m.updateSegment sid opts).collections = m.collections := rfl
@[simp] theorem updateSegment_partitions (sid opts) :
    (m.updateSegment sid opts).partitions = m.partitions := rfl
@[simp] theorem updateSegment_segments (sid opts) :
    (m.updateSegment sid opts).segments = m.segments.map fun s =>
      if s.segmentId = sid then applyOpts SegmentOpt.apply opts s else s := rfl

/-! ### The segments of a backup -/

/-- Two segments of the table with one id are one record. -/
theorem eq_of_mem_segments {s₁ s₂ : SegmentBackupInfo} (h₁ : s₁ ∈ m.segments)
    (h₂ : s₂ ∈ m.segments) (h : s₁.segmentId = s₂.segmentId) : s₁ = s₂ :=
  List.inj_on_of_nodup_map m.segments_nodup h₁ h₂ h

/-! ### What the writes of one backup leave to the others -/

theorem getBackup_updateBackup_of_ne {id id' : String} (h : id' ≠ id) (opts : List BackupOpt) :
    (m.updateBackup id opts).getBackup id' = m.getBackup id' :=
  find?_map_of_fix (fun b => by rw [BackupInfo.updateWhen_id]) (fun b hb => by
    rw [BackupInfo.updateWhen_eq, if_neg fun hb' => h ((of_decide_eq_true hb).symm.trans hb')]) _

/-- `UpdateBackup` applies its options to the record it names. -/
theorem getBackup_updateBackup (id : String) (opts : List BackupOpt) :
    (m.updateBackup id opts).getBackup id = (m.getBackup id).map (applyOpts BackupOpt.apply opts) := by
  have hp : (fun b : BackupInfo => decide (b.id = id)) ∘ BackupInfo.updateWhen id opts =
      fun b => decide (b.id = id) :=
    funext fun b => by simp only [Function.comp_apply, BackupInfo.updateWhen_id]
  simp only [getBackup, updateBackup_backups, List.find?_map, hp]
  cases h : m.backups.find? (·.id = id) with
  | none => rfl
  | some b =>
    have hb : b.id = id := by simpa using List.find?_some h
    simp [hb]

/-- `UpdateBackup` leaves every record in place. -/
theorem isSome_getBackup_updateBackup (id' : String) (opts : List BackupOpt) (id : String) :
    ((m.updateBackup id' opts).getBackup id).isSome = (m.getBackup id).isSome := by
  by_cases h : id = id'
  · subst h
    rw [getBackup_updateBackup]
    cases m.getBackup id <;> rfl
  · rw [getBackup_updateBackup_of_ne m h]

/-- `AddBackup` records its backup and keeps every other record. -/
theorem isSome_getBackup_addBackup (b : BackupInfo) (id : String) :
    ((m.addBackup b).getBackup id).isSome ↔ id = b.id ∨ (m.getBackup id).isSome := by
  simp only [getBackup, List.find?_isSome, addBackup_backups, mem_upsert, decide_eq_true_eq]
  constructor
  · rintro ⟨x, rfl | ⟨hx, -⟩, rfl⟩
    exacts [.inl rfl, .inr ⟨x, hx, rfl⟩]
  · rintro (rfl | ⟨x, hx, rfl⟩)
    · exact ⟨b, Or.inl rfl, rfl⟩
    · by_cases h : x.id = b.id
      exacts [⟨b, Or.inl rfl, h.symm⟩, ⟨x, Or.inr ⟨hx, h⟩, rfl⟩]

theorem getCollections_updateCollection_of_ne {id id' : String} (h : id' ≠ id) (collectionId : Int)
    (opts : List CollectionOpt) :
    (m.updateCollection id collectionId opts).getCollections id' = m.getCollections id' :=
  filter_map_of_fix (fun c => by rw [CollectionBackupInfo.updateWhen_id]) (fun c hc => by
    rw [CollectionBackupInfo.updateWhen_eq, if_neg fun hc' => h ((of_decide_eq_true hc).symm.trans hc'.1)])
    _

theorem getCollections_addCollection_of_ne {c : CollectionBackupInfo} {id' : String}
    (h : c.id ≠ id') : (m.addCollection c).getCollections id' = m.getCollections id' :=
  filter_upsert_of_not _ (by simpa using h) (fun y hy => by simpa [(Prod.mk.inj hy).1] using h) _

theorem getSegment_updateSegment_of_ne {segmentId segmentId' : Int} (h : segmentId' ≠ segmentId)
    (opts : List SegmentOpt) :
    (m.updateSegment segmentId opts).getSegment segmentId' = m.getSegment segmentId' := by
  unfold getSegment
  rw [updateSegment_segments]
  exact find?_map_of_fix (fun s => by split <;> simp [applyOpts_keep _ SegmentOpt.apply_segmentId])
    (fun s hs => if_neg fun hs' => h ((of_decide_eq_true hs).symm.trans hs')) _

/-- `UpdateSegment` applies its options to the record of its segment. -/
theorem getSegment_updateSegment (segmentId : Int) (opts : List SegmentOpt) :
    (m.updateSegment segmentId opts).getSegment segmentId =
      (m.getSegment segmentId).map (applyOpts SegmentOpt.apply opts) := by
  have hp : (fun s : SegmentBackupInfo => decide (s.segmentId = segmentId)) ∘
      (fun s => if s.segmentId = segmentId then applyOpts SegmentOpt.apply opts s else s) =
      fun s => decide (s.segmentId = segmentId) :=
    funext fun s => by
      simp only [Function.comp_apply]
      split <;> simp [applyOpts_keep _ SegmentOpt.apply_segmentId]
  simp only [getSegment, updateSegment_segments, List.find?_map, hp]
  cases h : m.segments.find? (·.segmentId = segmentId) with
  | none => rfl
  | some seg =>
    have hs : seg.segmentId = segmentId := by simpa using List.find?_some h
    simp [hs]

/-- The record `GetSegment` returns carries the id it was looked up by. -/
theorem getSegment_segmentId {segmentId : Int} {seg : SegmentBackupInfo}
    (h : m.getSegment segmentId = some seg) : seg.segmentId = segmentId := by
  simpa using List.find?_some h

/-- Every segment of a joined backup tree is a record of the segment table. -/
theorem mem_segments_of_getFullMeta {id : String} {b : BackupInfo}
    (hb : m.getFullMeta id = some b) {seg : SegmentBackupInfo} (hs : seg ∈ b.allSegments) :
    seg ∈ m.segments := by
  obtain ⟨b', -, rfl⟩ := Option.map_eq_some'.mp hb
  simp only [BackupInfo.allSegments, List.flatMap_map, List.mem_flatMap, getSegments,
    List.mem_filter] at hs
  obtain ⟨-, -, -, -, hs, -⟩ := hs
  exact hs

/-! ### What an `AddCollection` overwrites -/

/-- A second `AddCollection` of a record overwrites the first. -/
theorem addCollection_addCollection {c₁ c₂ : CollectionBackupInfo} (hid : c₁.id = c₂.id)
    (hcid : c₁.collectionId = c₂.collectionId) :
    (m.addCollection c₁).addCollection c₂ = m.addCollection c₂ := by
  obtain ⟨bs, names, cs, cids, ps, segs, h⟩ := m
  simp only [addCollection, mk.injEq, true_and, and_true]
  exact ⟨upsert_upsert _ (by simp [hid, hcid]) cs, upsert_upsert Prod.fst
    (show (c₁.collectionId, c₁.id).1 = (c₂.collectionId, c₂.id).1 from hcid) cids⟩

/-- An `AddCollection` overwrites the updates of its record. -/
theorem addCollection_updateCollection {c : CollectionBackupInfo} {id : String} {collectionId : Int}
    (hid : c.id = id) (hcid : c.collectionId = collectionId) (opts : List CollectionOpt) :
    (m.updateCollection id collectionId opts).addCollection c = m.addCollection c := by
  obtain ⟨bs, names, cs, cids, ps, segs, h⟩ := m
  simp only [addCollection, updateCollection, mk.injEq, true_and, and_true]
  refine upsert_map_of_fix _ (fun y => Prod.ext (CollectionBackupInfo.updateWhen_id _ _ _ y)
    (CollectionBackupInfo.updateWhen_collectionId _ _ _ y)) (fun y hy => ?_) cs
  rw [CollectionBackupInfo.updateWhen_eq, if_neg]
  rintro ⟨rfl, rfl⟩
  exact hy (by rw [hid, hcid])

/-- `m` and `m'` are the same but for the collection record `(id, collectionId)`: an
`AddCollection` of that record makes them equal. -/
def SameBut (id : String) (collectionId : Int) (m' : MetaManager) : Prop :=
  ∀ c : CollectionBackupInfo, c.id = id → c.collectionId = collectionId →
    m.addCollection c = m'.addCollection c

section SameBut

variable {m} {id : String} {collectionId : Int} {m' : MetaManager}

theorem SameBut.refl : m.SameBut id collectionId m := fun _ _ _ => rfl

theorem SameBut.addCollection (h : m.SameBut id collectionId m') {c : CollectionBackupInfo}
    (hid : c.id = id) (hcid : c.collectionId = collectionId) :
    (m.addCollection c).SameBut id collectionId m' :=
  fun _ hid' hcid' => (addCollection_addCollection m (hid.trans hid'.symm)
    (hcid.trans hcid'.symm)).trans (h _ hid' hcid')

theorem SameBut.updateCollection (h : m.SameBut id collectionId m') (opts : List CollectionOpt) :
    (m.updateCollection id collectionId opts).SameBut id collectionId m' :=
  fun _ hid' hcid' => (addCollection_updateCollection m hid' hcid' opts).trans (h _ hid' hcid')

end SameBut

/-! ### The records of one collection -/

/-- The backup `id` holds a record of the collection `collectionId`, and each of its records of
that collection satisfies `Φ`. -/
def RecordsOf (id : String) (collectionId : Int) (Φ : CollectionBackupInfo → Prop) : Prop :=
  (∃ c ∈ m.getCollections id, c.collectionId = collectionId) ∧
    ∀ c ∈ m.getCollections id, c.collectionId = collectionId → Φ c

section RecordsOf

variable {m} {id : String} {collectionId : Int} {Φ Ψ : CollectionBackupInfo → Prop}

theorem RecordsOf.mono (h : m.RecordsOf id collectionId Φ) (hΦ : ∀ c, Φ c → Ψ c) :
    m.RecordsOf id collectionId Ψ :=
  ⟨h.1, fun c hc hcid => hΦ c (h.2 c hc hcid)⟩

/-- The other tables are not read. -/
theorem RecordsOf.of_collections_eq {m' : MetaManager} (h : m.RecordsOf id collectionId Φ)
    (he : m'.collections = m.collections) : m'.RecordsOf id collectionId Φ := by
  rwa [RecordsOf, getCollections, he]

/-- An `AddCollection` makes its record the one record of its collection. -/
theorem recordsOf_addCollection (c : CollectionBackupInfo) :
    (m.addCollection c).RecordsOf c.id c.collectionId (· = c) := by
  simp only [RecordsOf, getCollections, addCollection_collections, List.mem_filter, mem_upsert,
    decide_eq_true_eq, Prod.mk.injEq, not_and]
  refine ⟨⟨c, ⟨.inl rfl, rfl⟩, rfl⟩, fun c' ⟨hc', hid⟩ hcid => ?_⟩
  rcases hc' with rfl | ⟨-, hk⟩
  exacts [rfl, absurd (by rw [hid, hcid]) hk]

/-- An `UpdateCollection` of the collection applies its options to each of its records. -/
theorem RecordsOf.updateCollection (h : m.RecordsOf id collectionId Φ) (opts : List CollectionOpt)
    (hΦ : ∀ c, Φ c → Ψ (applyOpts CollectionOpt.apply opts c)) :
    (m.updateCollection id collectionId opts).RecordsOf id collectionId Ψ := by
  obtain ⟨⟨c₀, hc₀, hcid₀⟩, hall⟩ := h
  simp only [RecordsOf, getCollections, updateCollection_collections, List.mem_filter,
    List.mem_map, decide_eq_true_eq] at hc₀ hall ⊢
  refine ⟨⟨_, ⟨⟨c₀, hc₀.1, rfl⟩, (c₀.updateWhen_id id collectionId opts).trans hc₀.2⟩,
    (c₀.updateWhen_collectionId id collectionId opts).trans hcid₀⟩, ?_⟩
  rintro _ ⟨⟨c, hc, rfl⟩, hid⟩ hcid
  simp only [CollectionBackupInfo.updateWhen_id, CollectionBackupInfo.updateWhen_collectionId]
    at hid hcid
  rw [CollectionBackupInfo.updateWhen_eq, if_pos ⟨hid, hcid⟩]
  exact hΦ c (hall c ⟨hc, hid⟩ hcid)

end RecordsOf

end MetaManager

end MilvusBackup
