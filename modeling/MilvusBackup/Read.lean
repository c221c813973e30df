import MilvusBackup.Create

/-!
# Reading, listing and deleting backups

`GetBackup` answers a request from the MetaManager when it can – by id, and then by name – and
otherwise reads the manifest under `{backupRoot}/{name}`, or under the request's own bucket and
path, with `readBackup`. `ListBackups` resolves each child of `{backupRoot}/` through
`GetBackup`. `DeleteBackup` resolves the name the same way, removes the backup's directory
whatever it found, and answers from the two results.

* `GetBackup` never answers *Fail*: a manifest that cannot be read is answered
  *Request_Object_Not_Found*, "not found", and the error is dropped
  (`MilvusBackup.getBackup_code_ne_fail`, from `MilvusBackup.getBackup_answers`, which lists every
  answer it gives).
* So the *Fail* of `DeleteBackup`, answered when the removal fails, carries the message of the
  lookup, which is "success" (`MilvusBackup.deleteBackup_fail_msg`).
* `DeleteBackup` removes `{backupRoot}/{name}` whatever the lookup found
  (`MilvusBackup.deleteBackup_removes`), and it leaves the MetaManager as it is: a backup that the
  context recorded is still found by name once it is deleted
  (`MilvusBackup.getBackup_after_deleteBackup`).
* `ListBackups` answers, path after path, what the resolution of each adds: the backup once, or
  under a collection filter once for each of its collections of that name – so a backup holding
  the name in two databases is listed twice (`MilvusBackup.listBackupsLoop_resolves`).

`Start` always returns `nil`, so the branches taken when it fails are dead and left out; so are
the `WithoutDetail` trimming of an answer (`SimpleBackupResponse` is not in the source) and the
names `ListBackups` collects for its log.
-/

namespace MilvusBackup

open BackupM

/-- The request's id, or a fresh `utils.UUID()` when it has none. -/
def fillRequestId (requestId : String) : BackupM String :=
  if requestId = "" then uuid else pure requestId

/-! ### `readBackup` -/

/-- `readBackup(ctx, bucketName, backupPath)`: the backup whose manifest lies under
`backupPath`, through `deserialize` of its first four objects; neither a backup nor an error when
there is no backup meta. Modelled from the spec: `META_PREFIX` and the `*_META_FILE` names are
declared outside the source, and are those of §4.E, as in `MilvusBackup.metaPath`. -/
def readBackup (ctx : Ctx) (bucketName backupPath : String) :
    BackupM (Option BackupInfo × Option GoError) := do
  let backupMetaDirPath := backupPath ++ seperator ++ "meta"
  let backupMetaPath := backupMetaDirPath ++ seperator ++ "backup_meta.json"
  let collectionMetaPath := backupMetaDirPath ++ seperator ++ "collection_meta.json"
  let partitionMetaPath := backupMetaDirPath ++ seperator ++ "partition_meta.json"
  let segmentMetaPath := backupMetaDirPath ++ seperator ++ "segment_meta.json"
  let (exist, err) ← exist ctx bucketName backupMetaPath
  if let some e := err then return (none, some e)
  if !exist then return (none, err)
  let (backupMetaBytes, err) ← read ctx bucketName backupMetaPath
  if let some e := err then return (none, some e)
  let (collectionBackupMetaBytes, err) ← read ctx bucketName collectionMetaPath
  if let some e := err then return (none, some e)
  let (partitionBackupMetaBytes, err) ← read ctx bucketName partitionMetaPath
  if let some e := err then return (none, some e)
  let (segmentBackupMetaBytes, err) ← read ctx bucketName segmentMetaPath
  if let some e := err then return (none, some e)
  let s ← setting
  match s.env.deserialize backupMetaBytes collectionBackupMetaBytes partitionBackupMetaBytes
      segmentBackupMetaBytes with
  | .error e => return (none, some e)
  | .ok backupInfo => return (some backupInfo, none)

/-! ### `GetBackup` -/

/-- `backuppb.GetBackupRequest`. -/
structure GetBackupRequest where
  requestId : String := ""
  backupName : String := ""
  backupId : String := ""
  bucketName : String := ""
  path : String := ""
  deriving DecidableEq, Repr

/-- `GetBackup(ctx, request)`. -/
def getBackup (ctx : Ctx) (request : GetBackupRequest) : BackupM BackupInfoResponse := do
  let requestId ← fillRequestId request.requestId
  let resp : BackupInfoResponse := { requestId := requestId }
  if request.backupId = "" ∧ request.backupName = "" then
    return { resp with code := .parameterError,
                       msg := "empty backup name and backup id, please set a backup name or id" }
  else if request.backupId ≠ "" then
    let m ← meta
    return { resp with code := .success, msg := "success", data := m.getFullMeta request.backupId }
  else if request.backupName ≠ "" then
    let m ← meta
    match m.getBackupByName request.backupName with
    | some backupInfo =>
      return { resp with code := .success, msg := "success", data := m.getFullMeta backupInfo.id }
    | none =>
      let s ← setting
      let (backupBucketName, backupPath) :=
        if request.bucketName = "" ∨ request.path = "" then
          (s.cfg.backupBucketName, s.cfg.backupRootPath ++ seperator ++ request.backupName)
        else (request.bucketName, request.path ++ seperator ++ request.backupName)
      let (backup, err) ← readBackup ctx backupBucketName backupPath
      let resp := match err with
        | some e => { resp with code := .fail, msg := e }
        | none => resp
      let resp := { resp with data := backup }
      match backup with
      | none => return { resp with code := .requestObjectNotFound, msg := "not found" }
      | some _ => return { resp with code := .success, msg := "success" }
  else
    return resp

/-! ### `ListBackups` -/

/-- `backuppb.ListBackupsRequest`. -/
structure ListBackupsRequest where
  requestId : String := ""
  collectionName : String := ""
  deriving DecidableEq, Repr

/-- `backuppb.ListBackupsResponse`. -/
structure ListBackupsResponse where
  requestId : String := ""
  code : ResponseCode := .success
  msg : String := ""
  data : List BackupInfo := []
  deriving DecidableEq, Repr

/-- Modelled from the spec: `BackupPathToName` is declared outside the source. The spec (§4.F)
has `ListBackups` resolve each immediate child of `{backupRoot}/`: its name is its path with the
root and the separators taken out. -/
def backupPathToName (backupRootPath backupPath : String) : String :=
  Go.replaceAll (Go.replaceFirst backupPath (backupRootPath ++ seperator) "") seperator ""

/-- The loop of `ListBackups` over the listed paths: each is resolved by `GetBackup`, and a
backup that resolves is appended once, or, under a collection filter, once for each of its
collections that bears the name. -/
def listBackupsLoop (ctx : Ctx) (collectionName backupRootPath : String) :
    List BackupInfo → List String → BackupM (List BackupInfo)
  | backupInfos, [] => pure backupInfos
  | backupInfos, backupPath :: backupPaths => do
    let backupResp ← getBackup ctx { backupName := backupPathToName backupRootPath backupPath }
    let backupInfos :=
      if backupResp.code ≠ .success then backupInfos
      else match backupResp.data with
        | none => backupInfos
        | some data =>
          if collectionName ≠ "" then
            data.collectionBackups.foldl (fun backupInfos collectionMeta =>
              if collectionMeta.collectionName = collectionName then backupInfos ++ [data]
              else backupInfos) backupInfos
          else backupInfos ++ [data]
    listBackupsLoop ctx collectionName backupRootPath backupInfos backupPaths

/-- `ListBackups(ctx, request)`. -/
def listBackups (ctx : Ctx) (request : ListBackupsRequest) : BackupM ListBackupsResponse := do
  let requestId ← fillRequestId request.requestId
  let resp : ListBackupsResponse := { requestId := requestId }
  let s ← setting
  let (backupPaths, err) ←
    listWithPrefix ctx s.cfg.backupBucketName (s.cfg.backupRootPath ++ seperator)
  if let some e := err then return { resp with code := .fail, msg := e }
  let backupInfos ← listBackupsLoop ctx request.collectionName s.cfg.backupRootPath []
    (backupPaths.map Prod.fst)
  return { resp with code := .success, msg := "success", data := backupInfos }

/-! ### `DeleteBackup` -/

/-- `backuppb.DeleteBackupRequest`. -/
structure DeleteBackupRequest where
  requestId : String := ""
  backupName : String := ""
  deriving DecidableEq, Repr

/-- `backuppb.DeleteBackupResponse`. -/
structure DeleteBackupResponse where
  requestId : String := ""
  code : ResponseCode := .success
  msg : String := ""
  deriving DecidableEq, Repr

/-- Modelled from the spec: `BackupDirPath` is declared outside the source; the spec (§4.F)
removes the prefix `{backupRoot}/{name}`. -/
def backupDirPath (backupRootPath backupName : String) : String :=
  backupRootPath ++ seperator ++ backupName

/-- `DeleteBackup(ctx, request)`: the lookup runs on the backup context's own context, the
removal on the caller's. -/
def deleteBackup (ctx : Ctx) (request : DeleteBackupRequest) : BackupM DeleteBackupResponse := do
  let requestId ← fillRequestId request.requestId
  let resp : DeleteBackupResponse := { requestId := requestId }
  if request.backupName = "" then
    return { resp with code := .parameterError, msg := "empty backup name" }
  let getResp ← getBackup .engine { backupName := request.backupName }
  let s ← setting
  let err ← removeWithPrefix ctx s.cfg.backupBucketName
    (backupDirPath s.cfg.backupRootPath request.backupName)
  if getResp.code = .requestObjectNotFound then
    return { resp with code := .requestObjectNotFound, msg := getResp.msg }
  else if getResp.code ≠ .success then
    return { resp with code := .fail, msg := getResp.msg }
  else if getResp.data.isNone then
    return { resp with code := .requestObjectNotFound,
                       msg := "backup does not exist: " ++ request.backupName }
  if err.isSome then
    return { resp with code := .fail, msg := getResp.msg }
  return { resp with code := .success, msg := "success" }

/-! ### The reads change nothing but the clock -/

section Keeps

variable {I : Invariant} {P : Event → Prop} {s : Setting}

theorem fillRequestId_keeps (requestId : String) : Keeps I P (fillRequestId requestId) s :=
  .ite (fun _ => .call _ _) fun _ => .pure _

theorem readBackup_keeps (ctx : Ctx) (bucketName backupPath : String) :
    Keeps I P (readBackup ctx bucketName backupPath) s := by
  unfold readBackup
  simp only [pure_bind]
  refine .bind (.call _ _) fun _ => ?_
  split
  · exact .pure _
  refine .ite (fun _ => .pure _) fun _ => .bind (.call _ _) fun _ => ?_
  split
  · exact .pure _
  refine .bind (.call _ _) fun _ => ?_
  split
  · exact .pure _
  refine .bind (.call _ _) fun _ => ?_
  split
  · exact .pure _
  refine .bind (.call _ _) fun _ => ?_
  split
  · exact .pure _
  refine .setting_bind ?_
  split <;> exact .pure _

theorem getBackup_keeps (ctx : Ctx) (request : GetBackupRequest) :
    Keeps I P (getBackup ctx request) s := by
  unfold getBackup
  refine .bind (fillRequestId_keeps _) fun _ => ?_
  dsimp only
  refine .ite (fun _ => .pure _) fun _ => .ite (fun _ => .bind .meta fun _ => .pure _) fun _ =>
    .ite (fun _ => .bind .meta fun _ => ?_) fun _ => .pure _
  split
  · exact .pure _
  · refine .setting_bind (.bind (readBackup_keeps _ _ _) fun _ => ?_)
    split <;> exact .pure _

/-- `DeleteBackup` keeps every invariant: all it logs is the removal. -/
theorem deleteBackup_keeps (ctx : Ctx) (request : DeleteBackupRequest) :
    Keeps I (fun _ => True) (deleteBackup ctx request) s := by
  unfold deleteBackup
  simp only [pure_bind]
  refine .bind (fillRequestId_keeps _) fun _ => .ite (fun _ => .pure _) fun _ => ?_
  refine .bind (getBackup_keeps _ _) fun _ =>
    .setting_bind (.bind (.removeWithPrefix _ _ _) fun _ => ?_)
  exact .ite (fun _ => .pure _) fun _ => .ite (fun _ => .pure _) fun _ =>
    .ite (fun _ => .pure _) fun _ => .ite (fun _ => .pure _) fun _ => .pure _

end Keeps

/-! ### What `GetBackup` answers -/

/-- The answers `GetBackup` gives: *Parameter_Error* to a request with neither an id nor a name,
and otherwise *Success* with "success" or *Request_Object_Not_Found* with "not found". -/
def GetBackupAnswer (request : GetBackupRequest) (r : BackupInfoResponse) : Prop :=
  (request.backupId = "" ∧ request.backupName = "" ∧ r.code = .parameterError ∧
    r.msg = "empty backup name and backup id, please set a backup name or id") ∨
  (r.code = .success ∧ r.msg = "success") ∨
  (r.code = .requestObjectNotFound ∧ r.msg = "not found")

variable {s : Setting}

/-- Every answer of `GetBackup` is one of `MilvusBackup.GetBackupAnswer`: whatever `readBackup`
returns, its error is overwritten. -/
theorem getBackup_answers (ctx : Ctx) (request : GetBackupRequest) :
    Ensures (GetBackupAnswer request) (getBackup ctx request) s := by
  unfold getBackup
  refine .bind (.triv _) fun _ _ => ?_
  dsimp only
  refine .ite (fun hnone => .pure (.inl ⟨hnone.1, hnone.2, rfl, rfl⟩)) fun hnone =>
    .ite (fun _ => .bind (.triv _) fun _ _ => .pure (.inr (.inl ⟨rfl, rfl⟩))) fun hid =>
    .ite (fun _ => .bind (.triv _) fun _ _ => ?_) fun hname =>
    absurd ⟨not_not.1 hid, not_not.1 hname⟩ hnone
  split
  · exact .pure (.inr (.inl ⟨rfl, rfl⟩))
  · refine .setting_bind (.bind (.triv _) fun _ _ => ?_)
    split
    · exact .pure (.inr (.inr ⟨rfl, rfl⟩))
    · exact .pure (.inr (.inl ⟨rfl, rfl⟩))

/-- **`GetBackup` never answers *Fail***, whatever the object store does. -/
theorem getBackup_code_ne_fail (ctx : Ctx) (request : GetBackupRequest) :
    Ensures (fun r => r.code ≠ .fail) (getBackup ctx request) s :=
  (getBackup_answers ctx request).mono fun r h => by
    rcases h with ⟨-, -, h, -⟩ | ⟨h, -⟩ | ⟨h, -⟩ <;> simp [h]

/-- A request by name alone that the MetaManager resolves is answered from it. -/
theorem getBackup_of_getBackupByName {ctx : Ctx} {request : GetBackupRequest} {m : MetaManager}
    {b : BackupInfo} (hid : request.backupId = "") (hname : request.backupName ≠ "")
    (hb : m.getBackupByName request.backupName = some b) :
    Triple (fun w => w.meta = m) (getBackup ctx request)
      (fun r _ => r.code = .success ∧ r.data = m.getFullMeta b.id) s := by
  unfold getBackup
  refine .bind (Keeps.triple_meta (fillRequestId_keeps _)) fun _ => ?_
  refine .ite (fun h => absurd h.2 hname) fun _ => .ite (fun h => absurd hid h) fun _ =>
    .ite (fun _ w hw => ?_) fun h => absurd hname h
  simp only [bind_apply, meta_apply, hw, hb]
  exact ⟨rfl, rfl⟩

/-! ### What `ListBackups` answers -/

/-- What one listed path adds to the answer of `ListBackups`, from what `GetBackup` answered for
it: nothing unless the backup resolved, and then the backup once – or, under a collection
filter, once for each of its collections that bears the name. -/
def listedEntries (collectionName : String) (backupResp : BackupInfoResponse) : List BackupInfo :=
  if backupResp.code ≠ .success then []
  else match backupResp.data with
    | none => []
    | some data =>
      if collectionName ≠ "" then
        List.replicate (data.collectionBackups.countP (·.collectionName = collectionName)) data
      else [data]

/-- `GetBackup` run on every listed path in turn, with the answers in listed order. -/
def resolveBackups (ctx : Ctx) (backupRootPath : String) :
    List String → BackupM (List BackupInfoResponse)
  | [] => pure []
  | backupPath :: backupPaths => do
    let backupResp ← getBackup ctx { backupName := backupPathToName backupRootPath backupPath }
    let backupResps ← resolveBackups ctx backupRootPath backupPaths
    pure (backupResp :: backupResps)

/-- The filter over the collections of a resolved backup appends it once per match. -/
theorem foldl_collectionName (collectionName : String) (data : BackupInfo) :
    ∀ (collections : List CollectionBackupInfo) (backupInfos : List BackupInfo),
    collections.foldl (fun backupInfos collectionMeta =>
        if collectionMeta.collectionName = collectionName then backupInfos ++ [data]
        else backupInfos) backupInfos =
      backupInfos ++ List.replicate (collections.countP (·.collectionName = collectionName)) data
  | [], _ => by simp
  | c :: collections, backupInfos => by
    rw [List.foldl_cons, foldl_collectionName collectionName data collections, List.countP_cons]
    by_cases h : c.collectionName = collectionName <;> simp [h, List.replicate_succ]

/-- **What `ListBackups` answers**: the loop over the listed paths resolves every path through
`GetBackup`, in order, and answers what each resolution adds, one after the other. -/
theorem listBackupsLoop_resolves (ctx : Ctx) (collectionName backupRootPath : String) :
    ∀ (backupPaths : List String) (backupInfos : List BackupInfo),
    listBackupsLoop ctx collectionName backupRootPath backupInfos backupPaths =
      resolveBackups ctx backupRootPath backupPaths >>= fun backupResps =>
        pure (backupInfos ++ backupResps.flatMap (listedEntries collectionName))
  | [], backupInfos => by simp [listBackupsLoop, resolveBackups]
  | backupPath :: backupPaths, backupInfos => by
    funext s w
    simp only [listBackupsLoop, resolveBackups, bind_apply, pure_apply,
      listBackupsLoop_resolves ctx collectionName backupRootPath backupPaths, List.flatMap_cons,
      ← List.append_assoc]
    congr 4
    generalize (getBackup ctx _ s w).1 = backupResp
    by_cases hc : backupResp.code = .success <;> cases hd : backupResp.data <;>
      by_cases hn : collectionName = "" <;> simp [listedEntries, hc, hd, hn, foldl_collectionName]

/-! ### What `DeleteBackup` answers and does -/

/-- **The *Fail* of `DeleteBackup` says "success"**: the lookup never fails, so *Fail* is
answered only when the removal fails, and then with the lookup's message. -/
theorem deleteBackup_fail_msg (ctx : Ctx) (request : DeleteBackupRequest) :
    Ensures (fun r => r.code = .fail → r.msg = "success") (deleteBackup ctx request) s := by
  unfold deleteBackup
  simp only [pure_bind]
  refine .bind (.triv _) fun _ _ => .ite (fun _ => .pure nofun) fun hname => ?_
  refine .bind (getBackup_answers _ _) fun _ hget =>
    .setting_bind (.bind (.triv _) fun _ _ => ?_)
  obtain ⟨-, h, -⟩ | ⟨hs, hmsg⟩ | ⟨hn, -⟩ := hget
  · exact absurd h hname
  · exact .ite (fun _ => .pure nofun) fun _ => .ite (fun h => absurd hs h) fun _ =>
      .ite (fun _ => .pure nofun) fun _ => .ite (fun _ => .pure fun _ => hmsg) fun _ => .pure nofun
  · exact .ite (fun _ => .pure nofun) fun h => absurd hn h

/-- A removal the object store accepts is logged. -/
theorem removeWithPrefix_logs {ctx : Ctx} {bucket pre : String} {l : List Event}
    (haccept : ∀ t c bucket pre, s.env.removeWithPrefix t c bucket pre = none) :
    Triple (fun w => w.log = l) (removeWithPrefix ctx bucket pre)
      (fun _ w => w.log = l ++ [.removed bucket pre]) s :=
  fun w hw => by simp [removeWithPrefix, haccept, hw]

/-- **`DeleteBackup` removes the backup's directory whatever the lookup found**: given a name,
under an object store that accepts removals, what it logs is that one removal. -/
theorem deleteBackup_removes (ctx : Ctx) (request : DeleteBackupRequest) (l : List Event)
    (hname : request.backupName ≠ "")
    (haccept : ∀ t c bucket pre, s.env.removeWithPrefix t c bucket pre = none) :
    Triple (fun w => w.log = l) (deleteBackup ctx request)
      (fun _ w => w.log = l ++ [.removed s.cfg.backupBucketName
        (backupDirPath s.cfg.backupRootPath request.backupName)]) s := by
  have hpure : ∀ r : DeleteBackupResponse,
      Triple (fun w => w.log = l ++ [.removed s.cfg.backupBucketName
        (backupDirPath s.cfg.backupRootPath request.backupName)]) (pure r)
      (fun _ w => w.log = l ++ [.removed s.cfg.backupBucketName
        (backupDirPath s.cfg.backupRootPath request.backupName)]) s := fun _ => .pure fun _ h => h
  unfold deleteBackup
  simp only [pure_bind]
  refine .bind (Keeps.triple_log (fillRequestId_keeps _)) fun _ =>
    .ite (fun h => absurd h hname) fun _ => ?_
  refine .bind (Keeps.triple_log (getBackup_keeps _ _)) fun _ =>
    .setting_bind (.bind (removeWithPrefix_logs haccept) fun _ => ?_)
  exact .ite (fun _ => hpure _) fun _ => .ite (fun _ => hpure _) fun _ =>
    .ite (fun _ => hpure _) fun _ => .ite (fun _ => hpure _) fun _ => hpure _

/-- **A deleted backup is still found by name**: `DeleteBackup` leaves the MetaManager as it is,
so `GetBackup` of the name of a backup that the context recorded answers *Success* with its full
meta after the delete as before it (where §8 of the spec expects *Request_Object_Not_Found*). -/
theorem getBackup_after_deleteBackup (ctx ctx' : Ctx) (request : DeleteBackupRequest)
    (m : MetaManager) (b : BackupInfo) (hname : request.backupName ≠ "")
    (hb : m.getBackupByName request.backupName = some b) :
    Triple (fun w => w.meta = m)
      (deleteBackup ctx request >>= fun _ => getBackup ctx' { backupName := request.backupName })
      (fun r _ => r.code = .success ∧ r.data = m.getFullMeta b.id) s :=
  .bind (Keeps.triple_meta (deleteBackup_keeps ctx request)) fun _ =>
    getBackup_of_getBackupByName rfl hname hb

end MilvusBackup

namespace MilvusBackup

/-! ### Listing on a fixed object store -/

/-- A backup `daily` holding a collection `coll` of database `default` and one of database
`db2`. -/
def twoDatabasesBackup : BackupInfo :=
  { id := "b", name := "daily",
    collectionBackups := [{ id := "b", collectionId := 12, dbName := "default", collectionName := "coll" },
      { id := "b", collectionId := 13, dbName := "db2", collectionName := "coll" }] }

/-- The backup root lists `backup/daily`, whose manifest reads as `twoDatabasesBackup`. -/
def twoDatabasesEnv : Env :=
  { Env.nominal with
    listWithPrefix := fun _ _ _ path => if path = "backup/" then ([("backup/daily", 0)], none)
      else ([], none)
    deserialize := fun _ _ _ _ => .ok twoDatabasesBackup }

/-- A backup with two collections of the filtered name is listed twice. -/
theorem listBackups_lists_twice :
    (listBackups .request { requestId := "q", collectionName := "coll" }
      ⟨dailyConfig, twoDatabasesEnv, none⟩ { meta := .empty }).1.data =
      [twoDatabasesBackup, twoDatabasesBackup] := by
  decide

end MilvusBackup
