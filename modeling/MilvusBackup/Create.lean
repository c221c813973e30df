import MilvusBackup.Execute
import Mathlib.Tactic.LiftLets

/-!
# Serving create requests

`CreateBackup` checks the requested name – that nothing exists under it in the backup bucket,
and that it is a valid name – records a new task, and runs `executeCreateBackup` on it: inline
for a synchronous request, in a goroutine for an asynchronous one, with the caller's context
either way.

A backup context serves requests concurrently (`MilvusBackup.Server`): the part of
`CreateBackup` before the goroutine runs outside the mutex, the goroutines run one at a time
under it. A schedule is a list of `MilvusBackup.Action`s, each run to completion; the
interleavings of this model are schedules the Go code allows, which is all a counterexample
needs. An invariant that recording a task and running any task keep holds after every schedule
(`MilvusBackup.Server.run_keeps`).

Two requests for one name can both pass the check – neither has written anything when the
other looks – and then both succeed and write the same manifest
(`MilvusBackup.server_two_successes_one_name`). A cancelled caller makes the writes of the
manifest fail without changing the recorded state (`MilvusBackup.server_cancel_changes_objects`).
Whatever the schedule, serving only ever updates backup records, writes to the backup bucket
and copies from the Milvus bucket into it (`MilvusBackup.server_run_events`).
-/

namespace MilvusBackup

open BackupM

/-! ### `CreateBackup` -/

/-- `backuppb.BackupInfoResponse`. -/
structure BackupInfoResponse where
  requestId : String := ""
  code : ResponseCode := .success
  msg : String := ""
  data : Option BackupInfo := none
  deriving DecidableEq, Repr

/-- Modelled from the spec: `utils.ValidateType(name, BACKUP_NAME)` is not in the source; the
spec (§4.F) asks for letters, digits and underscores, the first character a letter. The error's
text is not given there. -/
def validateType (name : String) : Option GoError :=
  match name.data with
  | c :: cs =>
    if c.isAlpha ∧ cs.all fun c => c.isAlphanum || c = '_' then none
    else some ("illegal backup name: " ++ name)
  | [] => some ("illegal backup name: " ++ name)

/-- `utils.UUID()`. -/
def uuid : BackupM String := call .engine fun e t _ => e.uuid t

/-- The name of a request without one: `backup_` and the UTC time down to the nanosecond. -/
def defaultBackupName : BackupM String := do
  let stamp ← call .engine fun e t _ => e.utcFormat t
  let nanos ← call .engine fun e t _ => e.nanosecond t
  pure ("backup_" ++ stamp ++ Go.formatInt nanos)

/-- A goroutine `go b.executeCreateBackup(ctx, request, backup)` that has not run yet. -/
structure Task where
  ctx : Ctx
  request : CreateBackupRequest
  backup : BackupInfo

/-- `CreateBackup(ctx, request)`: the response, and for an asynchronous request the goroutine
it starts. -/
def createBackup (ctx : Ctx) (request : CreateBackupRequest) :
    BackupM (BackupInfoResponse × Option Task) := do
  let request ← if request.requestId = "" then do
      let id ← uuid
      pure { request with requestId := id }
    else pure request
  let resp : BackupInfoResponse := { requestId := request.requestId }
  let request ← if request.backupName = "" then do
      let name ← defaultBackupName
      pure { request with backupName := name }
    else pure request
  if request.backupName ≠ "" then
    let s ← setting
    let (exist, err) ← exist .engine s.cfg.backupBucketName
      (s.cfg.backupRootPath ++ seperator ++ request.backupName)
    if let some e := err then
      let errMsg := "fail to check whether exist backup with name: " ++ request.backupName
      return ({ resp with code := .fail, msg := errMsg ++ "/n" ++ e }, none)
    if exist then
      return ({ resp with code := .parameterError,
                          msg := "backup already exist with the name: " ++ request.backupName },
        none)
  if let some e := validateType request.backupName then
    return ({ resp with code := .parameterError, msg := e }, none)
  let (milvusVersion, err) ← getVersion .engine
  if let some e := err then return ({ resp with code := .fail, msg := e }, none)
  let startTime ← timeNow
  let backup : BackupInfo :=
    { id := request.requestId, stateCode := .backupInitial, startTime := startTime,
      name := request.backupName, milvusVersion := milvusVersion }
  modifyMeta (·.addBackup backup)
  if request.async then
    return ({ requestId := request.requestId, code := .success,
              msg := "create backup is executing asynchronously", data := some backup },
      some ⟨ctx, request, backup⟩)
  else
    let err ← executeCreateBackup ctx request backup
    let m ← meta
    let resp := { resp with data := m.getBackup backup.id }
    match err with
    | some e => return ({ resp with code := .fail, msg := e }, none)
    | none => return ({ resp with code := .success, msg := "success" }, none)

/-! ### A server -/

/-- A backup context serving requests: its world, and the goroutines started and not yet run. -/
structure Server where
  world : World
  tasks : List Task

/-- What happens next: a request arrives and `CreateBackup` runs up to its return, or a started
goroutine takes the mutex and runs `executeCreateBackup` to the end. -/
inductive Action
  | createBackup (ctx : Ctx) (request : CreateBackupRequest)
  | runTask (i : Nat)

/-- One action. -/
def Server.step (s : Setting) (srv : Server) : Action → Server
  | .createBackup ctx request =>
    match createBackup ctx request s srv.world with
    | ((_, task), w) => ⟨w, srv.tasks ++ task.toList⟩
  | .runTask i =>
    match srv.tasks.get? i with
    | none => srv
    | some t =>
      match executeCreateBackup t.ctx t.request t.backup s srv.world with
      | (_, w) => ⟨w, srv.tasks.eraseIdx i⟩

/-- A schedule, run action after action. -/
def Server.run (s : Setting) (srv : Server) (actions : List Action) : Server :=
  actions.foldl (Server.step s) srv

/-! ### What serving keeps -/

section Keeps

variable {I : Invariant} {P : Event → Prop} {s : Setting}

/-- `CreateBackup` keeps every invariant that recording a task and running one keep. The `do`
block has four join points – after each defaulted field, after the check of the name and after
its validation – each a continuation that the branches before it share. -/
theorem createBackup_keeps (ctx : Ctx) (request : CreateBackupRequest)
    (hadd : ∀ b m cp dp, I m cp dp → I (m.addBackup b) cp dp)
    (hexec : ∀ request backupInfo, Keeps I P (executeCreateBackup ctx request backupInfo) s) :
    Keeps I P (createBackup ctx request) s := by
  unfold createBackup
  lift_lets
  intro jpId
  suffices hId : ∀ r, Keeps I P (jpId r) s from .ite
    (fun _ => .bind (.call _ _) fun _ => .bind (.pure _) fun r => hId r)
    fun _ => .bind (.pure _) fun r => hId r
  intro request
  unfold jpId
  lift_lets
  intro resp jpName
  suffices hName : ∀ r, Keeps I P (jpName r) s from .ite
    (fun _ => .bind (.bind (.call _ _) fun _ => .bind (.call _ _) fun _ => .pure _) fun _ =>
      .bind (.pure _) fun r => hName r)
    fun _ => .bind (.pure _) fun r => hName r
  intro request
  unfold jpName
  lift_lets
  intro jpVersion jpValid errMsg
  have hVersion : ∀ y, Keeps I P (jpVersion y) s := fun _ => by
    unfold jpVersion
    refine .bind (.call _ _) fun _ => ?_
    dsimp only
    split
    · exact .pure _
    · exact .bind (.pure _) fun _ => .bind (.call _ _) fun _ => .bind (.modifyMeta (hadd _)) fun _ =>
        .ite (fun _ => .pure _) fun _ => .bind (hexec _ _) fun _ => .bind .meta fun _ => by
          split <;> exact .pure _
  have hValid : ∀ y, Keeps I P (jpValid y) s := fun _ => by
    unfold jpValid
    split
    · exact .pure _
    · exact .bind (.pure _) fun y => hVersion y
  refine .ite (fun _ => .setting_bind (.bind (.call _ _) fun _ => ?_))
    fun _ => .bind (.pure _) fun y => hValid y
  dsimp only
  split
  · exact .pure _
  · exact .bind (.pure _) fun _ => .ite (fun _ => .pure _) fun _ => .bind (.pure _) fun y => hValid y

/-- The task a `CreateBackup` returned, if any, is recorded in `w`. -/
def TaskRecorded (r : BackupInfoResponse × Option Task) (w : World) : Prop :=
  ∀ t ∈ r.2, (w.meta.getBackup t.backup.id).isSome

/-- The task `CreateBackup` hands to a goroutine is recorded when it returns. -/
theorem createBackup_records_task (ctx : Ctx) (request : CreateBackupRequest) :
    Triple (fun _ => True) (createBackup ctx request) TaskRecorded s := by
  have hT : ∀ {α : Type} (x : BackupM α), Triple (fun _ => True) x (fun _ _ => True) s :=
    fun x => .of_ensures (.triv x)
  have hnone : ∀ resp, Triple (fun _ => True) (pure (resp, none)) TaskRecorded s :=
    fun _ => .pure fun _ _ _ h => nomatch h
  unfold createBackup
  lift_lets
  intro jpId
  suffices hId : ∀ r, Triple (fun _ => True) (jpId r) TaskRecorded s from
    .ite (fun _ => .bind (hT _) fun _ => .bind (hT _) fun r => hId r) fun _ => .bind (hT _) fun r => hId r
  intro request
  unfold jpId
  lift_lets
  intro resp jpName
  suffices hName : ∀ r, Triple (fun _ => True) (jpName r) TaskRecorded s from
    .ite (fun _ => .bind (hT _) fun _ => .bind (hT _) fun r => hName r) fun _ => .bind (hT _) fun r => hName r
  intro request
  unfold jpName
  lift_lets
  intro jpVersion jpValid errMsg
  have hVersion : ∀ y, Triple (fun _ => True) (jpVersion y) TaskRecorded s := fun _ => by
    unfold jpVersion
    refine .bind (hT _) fun _ => ?_
    dsimp only
    split
    · exact hnone _
    by_cases hasync : request.async = true
    · simp only [hasync]
      refine .bind (hT _) fun _ => .bind (hT _) fun _ w _ => ?_
      simp only [bind_apply, modifyMeta_apply]
      rintro t ⟨⟩
      exact (MetaManager.isSome_getBackup_addBackup _ _ _).2 (.inl rfl)
    · simp only [hasync]
      exact .bind (hT _) fun _ => .bind (hT _) fun _ => .bind (hT _) fun _ =>
        .bind (hT _) fun _ => .bind (hT _) fun _ => by split <;> exact hnone _
  have hValid : ∀ y, Triple (fun _ => True) (jpValid y) TaskRecorded s := fun _ => by
    unfold jpValid
    split
    · exact hnone _
    · exact .bind (hT _) fun y => hVersion y
  refine .ite (fun _ => .setting_bind (.bind (hT _) fun _ => ?_))
    fun _ => .bind (hT _) fun y => hValid y
  dsimp only
  split
  · exact hnone _
  · exact .bind (hT _) fun _ => .ite (fun _ => hnone _) fun _ => .bind (hT _) fun y => hValid y

/-- One action keeps an invariant that recording a task and running any task keep, and logs what
they may log. -/
theorem Server.step_keeps (hadd : ∀ b m cp dp, I m cp dp → I (m.addBackup b) cp dp)
    (hexec : ∀ ctx request backupInfo, Keeps I P (executeCreateBackup ctx request backupInfo) s)
    {srv : Server} (h : srv.world.Holds I) :
    ∀ a, (srv.step s a).world.Holds I ∧
      ∃ l, (srv.step s a).world.log = srv.world.log ++ l ∧ ∀ e ∈ l, P e
  | .createBackup ctx request => createBackup_keeps ctx request hadd (hexec ctx) _ h
  | .runTask i => by
    dsimp only [Server.step]
    split
    · exact ⟨h, [], by simp, by simp⟩
    · exact hexec _ _ _ _ h

/-- A property of servers that every action keeps holds after every schedule. -/
theorem Server.run_invariant (R : Server → Prop) (hstep : ∀ srv a, R srv → R (srv.step s a)) :
    ∀ (actions : List Action) {srv : Server}, R srv → R (srv.run s actions)
  | [], _, h => h
  | a :: actions, srv, h => Server.run_invariant R hstep actions (hstep srv a h)

/-- **What serving keeps**: an invariant that recording a task and running any task keep holds
after every schedule. -/
theorem Server.run_keeps (hadd : ∀ b m cp dp, I m cp dp → I (m.addBackup b) cp dp)
    (hexec : ∀ ctx request backupInfo, Keeps I P (executeCreateBackup ctx request backupInfo) s)
    (actions : List Action) {srv : Server} (h : srv.world.Holds I) :
    (srv.run s actions).world.Holds I :=
  Server.run_invariant (fun srv => srv.world.Holds I) (fun _ a h => (Server.step_keeps hadd hexec h a).1)
    actions h

/-- What serving create requests may log: an update of a backup record, a write to the backup
bucket, or a copy from the Milvus bucket to the backup bucket. -/
def CreatePathEvent (cfg : Config) : Event → Prop
  | .written bucket _ _ => bucket = cfg.backupBucketName
  | .copied srcBucket dstBucket _ _ =>
    srcBucket = cfg.milvusBucketName ∧ dstBucket = cfg.backupBucketName
  | .removed _ _ => False
  | .backupUpdated _ _ => True

/-- **Serving create requests leaves the data of Milvus alone**: along every schedule of
`CreateBackup` requests and task runs, the backup context logs only updates of backup records,
writes to the backup bucket and copies from the Milvus bucket to the backup bucket. It removes
nothing, and writes nothing into the Milvus bucket unless the two buckets are one. -/
theorem server_run_events (actions : List Action) (srv : Server) :
    ∃ l, (srv.run s actions).world.log = srv.world.log ++ l ∧ ∀ e ∈ l, CreatePathEvent s.cfg e := by
  have hjob : ∀ id, KeptByJob id fun _ _ _ => True := fun _ =>
    ⟨fun _ _ _ _ _ _ => trivial, fun _ _ _ _ _ _ => trivial, fun _ _ _ _ _ => trivial,
      fun _ _ _ _ _ => trivial, fun _ _ _ _ _ _ _ => trivial, fun _ _ _ _ _ => trivial⟩
  have hexec : ∀ ctx request backupInfo, Keeps (fun _ _ _ => True) (CreatePathEvent s.cfg)
      (executeCreateBackup ctx request backupInfo) s := fun ctx request backupInfo =>
    executeCreateBackup_keeps_events ctx request backupInfo (fun j _ _ _ _ _ => hjob j.2.backupId)
      (fun _ _ _ _ _ => trivial) (fun _ _ _ _ _ _ => trivial) (fun _ _ _ _ _ _ => trivial)
      (fun _ _ _ _ _ => trivial) (fun _ => trivial) (fun _ _ => rfl) fun _ _ => ⟨rfl, rfl⟩
  refine Server.run_invariant (fun srv' => ∃ l, srv'.world.log = srv.world.log ++ l ∧
    ∀ e ∈ l, CreatePathEvent s.cfg e) (fun srv' a ⟨l, hl, hP⟩ => ?_) actions ⟨[], by simp, by simp⟩
  obtain ⟨-, l', hl', hP'⟩ := Server.step_keeps (fun _ _ _ _ _ => trivial) hexec trivial a
  exact ⟨l ++ l', by rw [hl', hl, List.append_assoc], fun e he => (List.mem_append.1 he).elim
    (hP e) (hP' e)⟩

end Keeps

/-! ### A synchronous request -/

/-- Run from one world, `x` and `y` end in results related by `R`. -/
def RelatedRuns {α β : Type} (R : α × World → β × World → Prop) (x : BackupM α) (y : BackupM β)
    (s : Setting) : Prop :=
  ∀ w, R (x s w) (y s w)

/-- The synchronous outcome `o₁` ends where the asynchronous outcome `o₂` ends once the goroutine
it starts, if any, has run; and it starts none itself. -/
def SyncAsAsync (s : Setting) (o₁ o₂ : (BackupInfoResponse × Option Task) × World) : Prop :=
  o₁.1.2 = none ∧ o₁.2 = match o₂.1.2 with
    | none => o₂.2
    | some t => (executeCreateBackup t.ctx t.request t.backup s o₂.2).2

namespace RelatedRuns

variable {α β γ : Type} {R : α × World → β × World → Prop} {s : Setting}

/-- Both programs make one step first. -/
theorem bind_same {x : BackupM γ} {f : γ → BackupM α} {g : γ → BackupM β}
    (h : ∀ c, RelatedRuns R (f c) (g c) s) : RelatedRuns R (x >>= f) (x >>= g) s :=
  fun _ => h _ _

/-- Both programs test one condition. -/
theorem ite_same {c : Prop} [Decidable c] {x₁ y₁ : BackupM α} {x₂ y₂ : BackupM β}
    (h₁ : c → RelatedRuns R x₁ x₂ s) (h₂ : ¬c → RelatedRuns R y₁ y₂ s) :
    RelatedRuns R (if c then x₁ else y₁) (if c then x₂ else y₂) s := by
  split
  exacts [h₁ ‹_›, h₂ ‹_›]

/-- Two answers with no goroutine. -/
theorem pure_none {a b : BackupInfoResponse} :
    RelatedRuns (SyncAsAsync s) (pure (a, none)) (pure (b, none)) s :=
  fun _ => ⟨rfl, rfl⟩

end RelatedRuns

/-- `CreateBackup` with `Async` unset runs as with `Async` set, up to the branch on it: both
sides of each join point are followed together, and only the last step differs. -/
theorem createBackup_sync (ctx : Ctx) (request : CreateBackupRequest) (hsync : request.async = false)
    (s : Setting) :
    RelatedRuns (SyncAsAsync s) (createBackup ctx request)
      (createBackup ctx { request with async := true }) s := by
  unfold createBackup
  lift_lets
  intro jpId
  suffices hId : ∀ q : CreateBackupRequest, q.async = false →
      RelatedRuns (SyncAsAsync s) (jpId q) (jpId { q with async := true }) s by
    refine .ite_same (fun _ => .bind_same fun id => ?_) fun _ => hId request hsync
    exact hId { request with requestId := id } hsync
  intro q hq
  unfold jpId
  lift_lets
  intro resp jpName resp' jpName'
  suffices hName : ∀ q : CreateBackupRequest, q.async = false →
      RelatedRuns (SyncAsAsync s) (jpName q) (jpName' { q with async := true }) s by
    refine .ite_same (fun _ => .bind_same fun name => ?_) fun _ => hName q hq
    exact hName { q with backupName := name } hq
  intro q hq
  unfold jpName jpName'
  lift_lets
  intro jpVersion jpValid errMsg jpVersion' jpValid' errMsg'
  have hVersion : RelatedRuns (SyncAsAsync s) (jpVersion ()) (jpVersion' ()) s := by
    unfold jpVersion jpVersion'
    refine .bind_same fun ⟨v, e⟩ => ?_
    cases e
    · dsimp only
      refine .bind_same fun _ => .bind_same fun startTime => .bind_same fun _ => ?_
      rw [if_neg (by simp [hq]), if_pos rfl]
      intro w
      simp only [SyncAsAsync, bind_apply, meta_apply]
      cases (executeCreateBackup ctx q
          { id := q.requestId, stateCode := .backupInitial, startTime := startTime,
            name := q.backupName, milvusVersion := v } s w).1 <;>
        exact ⟨rfl, rfl⟩
    · exact .pure_none
  have hValid : RelatedRuns (SyncAsAsync s) (jpValid ()) (jpValid' ()) s := by
    unfold jpValid jpValid'
    dsimp only
    cases validateType q.backupName
    · exact .bind_same fun _ => hVersion
    · exact .pure_none
  refine .ite_same (fun _ => .bind_same fun _ => .bind_same fun ⟨exist, e⟩ => ?_)
    fun _ => .bind_same fun _ => hValid
  cases e
  · dsimp only
    exact .bind_same fun _ => .ite_same (fun _ => .pure_none) fun _ => .bind_same fun _ => hValid
  · exact .pure_none

/-- **A synchronous request is an asynchronous one whose goroutine runs at once**: serving
`CreateBackup` with `Async` unset ends in the server that serving it with `Async` set, then
running the goroutine it starts, ends in – the same world, the same goroutines waiting. -/
theorem server_sync_eq_async (s : Setting) (srv : Server) (ctx : Ctx) (request : CreateBackupRequest)
    (hsync : request.async = false) :
    srv.step s (.createBackup ctx request) =
      (srv.step s (.createBackup ctx { request with async := true })).step s
        (.runTask srv.tasks.length) := by
  obtain ⟨hnone, hworld⟩ := createBackup_sync ctx request hsync s srv.world
  simp only [Server.step]
  rw [hworld]
  generalize createBackup ctx { request with async := true } s srv.world = o at hnone ⊢
  obtain ⟨⟨_, _ | t⟩, w⟩ := o
  · simp [hnone]
  · simp [hnone, List.eraseIdx_append_of_length_le]

/-- A synchronous request for a backup `daily` on a Milvus with no collection. -/
theorem server_sync_eq_async_daily :
    dailyRequest.async = false ∧
    Server.step ⟨dailyConfig, Env.nominal, none⟩ ⟨{ meta := MetaManager.empty }, []⟩
        (.createBackup .request dailyRequest) =
      (Server.step ⟨dailyConfig, Env.nominal, none⟩ ⟨{ meta := MetaManager.empty }, []⟩
        (.createBackup .request { dailyRequest with async := true })).step
          ⟨dailyConfig, Env.nominal, none⟩ (.runTask 0) :=
  ⟨rfl, server_sync_eq_async _ _ _ _ rfl⟩

end MilvusBackup

namespace MilvusBackup

/-! ### Schedules on a fixed Milvus -/

/-- A Milvus with no collection, and an object store in which nothing exists under
`backup/daily`. -/
def emptyMilvusEnv : Env :=
  { Env.nominal with exist := fun _ _ _ path => (path ≠ "backup/daily", none) }

/-- Two asynchronous requests for a backup `daily`. -/
def dailyAsyncRequest (requestId : String) : CreateBackupRequest :=
  { requestId := requestId, backupName := "daily", async := true }

/-- A backup context that has served nothing. -/
def freshServer : Server := ⟨{ meta := MetaManager.empty }, []⟩

/-- Both requests check the name before either goroutine runs, so both record a task `daily`,
both tasks succeed, and each writes the backup meta of `backup/daily`. -/
theorem server_two_successes_one_name :
    ((freshServer.run ⟨dailyConfig, emptyMilvusEnv, none⟩
      [.createBackup .request (dailyAsyncRequest "r1"),
       .createBackup .request (dailyAsyncRequest "r2")]).world.meta.backups.map
        fun b => (b.name, b.stateCode)) =
      [("daily", .backupInitial), ("daily", .backupInitial)] ∧
    ((freshServer.run ⟨dailyConfig, emptyMilvusEnv, none⟩
      [.createBackup .request (dailyAsyncRequest "r1"),
       .createBackup .request (dailyAsyncRequest "r2"), .runTask 0, .runTask 0]).world.meta.backups.map
        fun b => (b.name, b.stateCode)) =
      [("daily", .backupSuccess), ("daily", .backupSuccess)] ∧
    ((freshServer.run ⟨dailyConfig, emptyMilvusEnv, none⟩
      [.createBackup .request (dailyAsyncRequest "r1"),
       .createBackup .request (dailyAsyncRequest "r2"), .runTask 0, .runTask 0]).world.log.filterMap
        Event.writtenPath).count (backupMetaPath "backup" "daily") = 2 := by
  decide

/-- An object store that refuses a write whose context is cancelled. -/
def cancellableWritesEnv : Env :=
  { emptyMilvusEnv with write := fun _ cancelled _ _ => if cancelled then some contextCanceled else none }

/-- An asynchronous request returns at tick `3`; the caller cancelling its context then leaves
the task's record as it is, and takes every object of the manifest away. -/
theorem server_cancel_changes_objects :
    (freshServer.run ⟨dailyConfig, cancellableWritesEnv, none⟩
      [.createBackup .request (dailyAsyncRequest "r1")]).world.clock = 3 ∧
    (freshServer.run ⟨dailyConfig, cancellableWritesEnv, none⟩
      [.createBackup .request (dailyAsyncRequest "r1"), .runTask 0]).world.meta.getFullMeta "r1" =
    (freshServer.run ⟨dailyConfig, cancellableWritesEnv, some 3⟩
      [.createBackup .request (dailyAsyncRequest "r1"), .runTask 0]).world.meta.getFullMeta "r1" ∧
    ((freshServer.run ⟨dailyConfig, cancellableWritesEnv, none⟩
      [.createBackup .request (dailyAsyncRequest "r1"), .runTask 0]).world.log.filterMap
        Event.writtenPath).length = 6 ∧
    ((freshServer.run ⟨dailyConfig, cancellableWritesEnv, some 3⟩
      [.createBackup .request (dailyAsyncRequest "r1"), .runTask 0]).world.log.filterMap
        Event.writtenPath) = [] := by
  decide

end MilvusBackup
