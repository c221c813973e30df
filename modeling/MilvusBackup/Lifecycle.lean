import MilvusBackup.Create

/-!
# The life cycle of a backup task

A task that `CreateBackup` records is run by `executeCreateBackup`, which drives two waves of
collection jobs through the collection pool. This file follows the task's record through whole
runs.

* **A run ends its task.** `executeCreateBackup` leaves the record of its task *Fail*, with the
  error it returns as the record's message, or *Success*. The second happens also when the
  manifest step fails – it does on a channel name without `_` – and the run then returns that
  error while the record says *Success* (`MilvusBackup.executeCreateBackup_terminal`).
* **No collection job outlives its task.** `executeCreateBackup` waits for every collection job
  it submits, whichever wave fails, so a server that starts with none pending has none pending
  after any schedule (`MilvusBackup.server_run_drains`). The copy pool has no such property: a
  copy job may be left pending when a task fails.
* **Every task runs from a ready server.** Along every schedule, a server with nothing pending
  and its waiting tasks recorded stays so (`MilvusBackup.server_run_ready`): every task it runs
  starts where `MilvusBackup.executeCreateBackup_terminal` applies.
-/

namespace MilvusBackup

open BackupM

/-! ### How a run ends its task -/

/-- How a run of `executeCreateBackup` that returned `r` can leave the record of task `id`:
failed, with `r` as its message, or succeeded, `r` then being no error or the error of the
manifest step. -/
def Terminal (id : String) (r : Option GoError) (m : MetaManager) : Prop :=
  ∃ b, m.getBackup id = some b ∧
    (b.stateCode = .backupFail ∧ r = some b.errorMessage ∨
      b.stateCode = .backupSuccess ∧ (r = none ∨ r = some indexOutOfRange))

/-- The record of task `id` exists. -/
def Recorded (id : String) : Invariant := fun m _ _ => (m.getBackup id).isSome

/-- No collection job writes a backup record. -/
theorem keptByJob_recorded (id jobId : String) : KeptByJob jobId (Recorded id) where
  addCollection _ _ _ _ _ h := h
  updateCollection _ _ _ _ _ h := h
  addPartition _ _ _ _ h := h
  addSegment _ _ _ _ h := h
  updateSegment _ _ _ _ _ _ h := h
  copyPool _ _ _ _ h := h

section Terminal

variable {s : Setting}

/-- Waiting for collection jobs keeps a task's record, whichever backups the jobs are of. -/
theorem waitJobs_recorded (id : String) (ids : List Nat) :
    Keeps (Recorded id) (fun _ => True) (waitJobs collectionPoolRef runCollectionJob ids) s :=
  .waitJobs collectionPoolRef_focuses (fun _ _ h _ => h) (fun _ _ h => h)
    fun _ j _ _ => runCollectionJob_keeps j.2 (keptByJob_recorded id _)

/-- `UpdateBackup` of a recorded task applies its options to the record. -/
theorem updateBackup_applies (id : String) (opts : List BackupOpt) :
    Triple (World.Holds (Recorded id)) (updateBackup id opts)
      (fun _ w => ∃ b, w.meta.getBackup id = some (applyOpts BackupOpt.apply opts b)) s :=
  fun w hw => by
    obtain ⟨b, hb⟩ := Option.isSome_iff_exists.mp hw
    exact ⟨b, by simp [updateBackup, MetaManager.getBackup_updateBackup, hb]⟩

/-- A failed step: the record fails with the error, which the run returns. -/
theorem fail_terminal (id : String) (err : GoError) :
    Triple (World.Holds (Recorded id))
      (updateBackup id [.setStateCode .backupFail, .setErrorMessage err] >>= fun _ =>
        pure (some err))
      (fun r w => Terminal id r w.meta) s :=
  .bind (updateBackup_applies id _) fun _ => .pure fun _ ⟨_, hb⟩ => ⟨_, hb, .inl ⟨rfl, rfl⟩⟩

/-- The manifest step returns no error, or the error of a channel name without `_`. -/
theorem writeBackupInfoMeta_returns (ctx : Ctx) (id : String) :
    Ensures (fun r => r = none ∨ r = some indexOutOfRange) (writeBackupInfoMeta ctx id) s := by
  refine .bind (.triv _) fun _ _ => ?_
  dsimp only
  split
  · exact .pure (.inr rfl)
  · exact .setting_bind (.bind (.triv _) fun _ _ => .bind (.triv _) fun _ _ =>
      .bind (.triv _) fun _ _ => .bind (.triv _) fun _ _ => .bind (.triv _) fun _ _ =>
      .bind (.triv _) fun _ _ => .pure (.inl rfl))

/-- **A run ends its task**: from a world in which the task is recorded, `executeCreateBackup`
leaves its record failed with the returned error as message, or succeeded – with no error, or
with the error of the manifest step. -/
theorem executeCreateBackup_terminal (ctx : Ctx) (request : CreateBackupRequest)
    (backupInfo : BackupInfo) :
    Triple (fun w => (w.meta.getBackup backupInfo.id).isSome)
      (executeCreateBackup ctx request backupInfo)
      (fun r w => Terminal backupInfo.id r w.meta) s := by
  have hkeep : ∀ {α : Type} {x : BackupM α},
      Keeps (Recorded backupInfo.id) (fun _ => True) x s →
      Triple (World.Holds (Recorded backupInfo.id)) x
        (fun _ w => w.Holds (Recorded backupInfo.id)) s := Keeps.triple
  have hsubmit : ∀ {β : Type} (l : List β) (f : β → CollectionJob),
      Keeps (Recorded backupInfo.id) (fun _ => True)
        (l.mapM fun b => submitWithId collectionPoolRef (f b)) s :=
    fun _ _ => .mapM fun _ _ => .submitWithId collectionPoolRef_focuses fun _ h => h
  have hsuccess : ∀ endTime : Int, Triple _ (writeBackupInfoMeta ctx backupInfo.id) _ s :=
    fun endTime => Keeps.triple_of_ensures (writeBackupInfoMeta_keeps _ _ : Keeps (fun m _ _ =>
      ∃ b, m.getBackup backupInfo.id =
        some (applyOpts BackupOpt.apply [.setStateCode .backupSuccess, .setEndTime endTime] b))
      (fun _ => True) _ s) (writeBackupInfoMeta_returns _ _)
  unfold executeCreateBackup
  refine .bind (hkeep (parseBackupCollections_keeps _)) fun _ => ?_
  split
  · exact fail_terminal _ _
  refine .bind (hkeep (hsubmit _ _)) fun _ => .bind (hkeep (waitJobs_recorded _ _)) fun _ => ?_
  simp only [BackupM.pure_bind]
  split
  · exact fail_terminal _ _
  split
  on_goal 1 =>
    refine .bind (hkeep .meta) fun _ => .bind (hkeep (hsubmit _ _)) fun _ =>
      .bind (hkeep (waitJobs_recorded _ _)) fun _ => ?_
    split
    · exact fail_terminal _ _
  all_goals
    refine .bind (hkeep (.call _ _)) fun endTime => .bind (updateBackup_applies _ _) fun _ =>
      .bind (hsuccess endTime) fun _ => ?_
    split
    · exact .pure fun _ ⟨hr, _, hb⟩ => ⟨_, hb, .inr ⟨rfl, .inr (hr.resolve_left nofun)⟩⟩
    · exact .pure fun _ ⟨_, _, hb⟩ => ⟨_, hb, .inr ⟨rfl, .inl rfl⟩⟩

/-- The task `daily`, recorded in `dailyWorld`, ends terminal on the Milvus of `oneSegmentEnv`. -/
theorem executeCreateBackup_terminal_daily :
    (dailyWorld.meta.getBackup dailyTask.id).isSome ∧
    Terminal dailyTask.id
      (executeCreateBackup .request dailyRequest dailyTask ⟨dailyConfig, oneSegmentEnv, none⟩
        dailyWorld).1
      (executeCreateBackup .request dailyRequest dailyTask ⟨dailyConfig, oneSegmentEnv, none⟩
        dailyWorld).2.meta :=
  have h : (dailyWorld.meta.getBackup dailyTask.id).isSome := by decide
  ⟨h, executeCreateBackup_terminal .request dailyRequest dailyTask dailyWorld h⟩

end Terminal

/-! ### How a run drains the collection pool -/

section Drain

variable {s : Setting}

/-- No collection job touches the collection pool. -/
theorem keptByJob_collectionPool (id : String) (q : Pool CollectionJob) :
    KeptByJob id (fun _ cp _ => cp = q) where
  addCollection _ _ _ _ _ h := h
  updateCollection _ _ _ _ _ h := h
  addPartition _ _ _ _ h := h
  addSegment _ _ _ _ h := h
  updateSegment _ _ _ _ _ _ h := h
  copyPool _ _ _ _ h := h

/-- Running the collection job pending under `id` takes every job of that id out of the
pending list. -/
theorem runPending_pending (id : Nat) (l : List (Nat × CollectionJob)) :
    Triple (fun w => w.collectionPool.pending = l)
      (runPending collectionPoolRef runCollectionJob id)
      (fun _ w => w.collectionPool.pending = l.filter (·.1 ≠ id)) s := by
  have hrun : ∀ job w, (runCollectionJob job s w).2.collectionPool = w.collectionPool :=
    fun job w => (runCollectionJob_keeps job (keptByJob_collectionPool _ w.collectionPool) w rfl).1
  rintro ⟨m, c, lg, ⟨n, pending, finished⟩, dp⟩ rfl
  have hsnd := takePending_snd id pending
  unfold runPending
  dsimp only [collectionPoolRef]
  rcases ht : takePending id pending with ⟨_ | job, rest⟩ <;> rw [ht] at hsnd <;> dsimp only
  · exact hsnd
  · change (runCollectionJob job s _).2.collectionPool.pending = _
    rw [hrun]
    exact hsnd

/-- Waiting for `ids` takes every job of those ids out of the pending list. -/
theorem forM_runPending_pending :
    ∀ (ids : List Nat) (l : List (Nat × CollectionJob)),
    Triple (fun w => w.collectionPool.pending = l)
      (ids.forM (runPending collectionPoolRef runCollectionJob))
      (fun _ w => w.collectionPool.pending = l.filter (·.1 ∉ ids)) s
  | [], l => .pure fun _ h => by simp [h]
  | id :: ids, l => .bind (runPending_pending id l) fun _ =>
    (forM_runPending_pending ids _).mono (fun _ h => h) fun _ _ h => by
      rw [h, List.filter_filter]
      exact List.filter_congr fun x _ => by rw [Bool.eq_iff_iff]; simp [and_comm]

/-- Waiting for `ids` takes the jobs of those ids out of the pending list, and only them. -/
theorem waitJobs_pending (ids : List Nat) (l : List (Nat × CollectionJob)) :
    Triple (fun w => w.collectionPool.pending = l) (waitJobs collectionPoolRef runCollectionJob ids)
      (fun _ w => w.collectionPool.pending = l.filter (·.1 ∉ ids)) s := by
  unfold waitJobs
  exact .bind (forM_runPending_pending ids l) fun _ => .bind (Keeps.triple
    (Keeps.getPool collectionPoolRef_focuses : Keeps (fun _ cp _ => cp.pending = _) _ _ s))
    fun _ => .pure fun _ h => h

/-- **Waiting drains**: once every pending collection job is among `ids`, waiting for `ids`
leaves none pending. -/
theorem waitJobs_drains (ids : List Nat) :
    Triple (fun w => ∀ x ∈ w.collectionPool.pending, x.1 ∈ ids)
      (waitJobs collectionPoolRef runCollectionJob ids)
      (fun _ w => w.collectionPool.pending = []) s := fun w hw =>
  (waitJobs_pending ids _ w rfl).trans
    (List.filter_eq_nil_iff.2 fun x hx => by simpa using hw x hx)

/-- `SubmitWithId` appends the job to the pending list, under the id it returns. -/
theorem submitWithId_pending (job : CollectionJob) (l : List (Nat × CollectionJob)) :
    Triple (fun w => w.collectionPool.pending = l) (submitWithId collectionPoolRef job)
      (fun n w => w.collectionPool.pending = l ++ [(n, job)]) s := by
  rintro ⟨m, c, lg, ⟨n, pending, finished⟩, dp⟩ rfl
  rfl

/-- Submitting jobs, with the ids returned so far in `acc`, leaves pending only jobs under the
ids returned. -/
theorem mapM_submitWithId_pending {β : Type} (f : β → CollectionJob) :
    ∀ (bs : List β) (acc : List Nat),
    Triple (fun w => ∀ x ∈ w.collectionPool.pending, x.1 ∈ acc)
      (List.mapM.loop (fun b => submitWithId collectionPoolRef (f b)) bs acc)
      (fun ids w => ∀ x ∈ w.collectionPool.pending, x.1 ∈ ids) s
  | [], acc => .pure fun _ h x hx => List.mem_reverse.2 (h x hx)
  | b :: bs, acc => fun w hw =>
    (Triple.bind (submitWithId_pending (f b) w.collectionPool.pending) fun n =>
      (mapM_submitWithId_pending f bs (n :: acc)).mono (fun w' hw' x hx => by
        rw [hw', List.mem_append, List.mem_singleton] at hx
        rcases hx with hx | rfl
        · exact List.mem_cons_of_mem _ (hw x hx)
        · exact List.mem_cons_self _ _) fun _ _ h => h) w rfl

/-- No collection job is left pending: from a world with none pending, `executeCreateBackup`
waits for every collection job it submits, on every path. -/
theorem executeCreateBackup_drains (ctx : Ctx) (request : CreateBackupRequest)
    (backupInfo : BackupInfo) :
    Triple (fun w => w.collectionPool.pending = []) (executeCreateBackup ctx request backupInfo)
      (fun _ w => w.collectionPool.pending = []) s := by
  have hkeep : ∀ {α : Type} {x : BackupM α},
      Keeps (fun _ cp _ => cp.pending = []) (fun _ => True) x s →
      Triple (fun w => w.collectionPool.pending = []) x
        (fun _ w => w.collectionPool.pending = []) s := Keeps.triple
  have hupdate : ∀ opts, Triple (fun w => w.collectionPool.pending = [])
      (updateBackup backupInfo.id opts) (fun _ w => w.collectionPool.pending = []) s :=
    fun _ => hkeep (.bind (.modifyMeta fun _ _ _ h => h) fun _ => .logEvent trivial)
  have hsubmit : ∀ {β : Type} (l : List β) (f : β → CollectionJob),
      Triple (fun w => w.collectionPool.pending = [])
        (l.mapM fun b => submitWithId collectionPoolRef (f b))
        (fun ids w => ∀ x ∈ w.collectionPool.pending, x.1 ∈ ids) s :=
    fun l f => (mapM_submitWithId_pending f l []).mono (fun w h x hx => by simp [h] at hx)
      fun _ _ h => h
  unfold executeCreateBackup
  refine .bind (hkeep (parseBackupCollections_keeps _)) fun _ => ?_
  split
  · exact .bind (hupdate _) fun _ => .pure fun _ h => h
  refine .bind (hsubmit _ _) fun _ => .bind (waitJobs_drains _) fun _ => ?_
  simp only [BackupM.pure_bind]
  split
  · exact .bind (hupdate _) fun _ => .pure fun _ h => h
  split
  on_goal 1 =>
    refine .bind (hkeep .meta) fun _ => .bind (hsubmit _ _) fun _ =>
      .bind ((waitJobs_drains _).mono (fun _ h x hx => List.mem_append_right _ (h x hx))
        fun _ _ h => h) fun _ => ?_
    split
    · exact .bind (hupdate _) fun _ => .pure fun _ h => h
  all_goals
    exact .bind (hkeep (.call _ _)) fun _ => .bind (hupdate _) fun _ =>
      .bind (hkeep (writeBackupInfoMeta_keeps _ _)) fun _ => by split <;> exact .pure fun _ h => h

/-- The jobs pending on the collection pool are jobs of backup `id`: what `executeCreateBackup`
of task `id` keeps, since it submits only jobs of its own task. -/
theorem keptByBackup_ownJobs (id : String) :
    KeptByBackup id (fun _ cp _ => ∀ j ∈ cp.pending, j.2.backupId = id) where
  addCollection _ _ _ _ _ h := h
  updateCollection _ _ _ _ _ h := h
  addPartition _ _ _ _ h := h
  addSegment _ _ _ _ h := h
  updateSegment _ _ _ _ _ _ h := h
  copyPool _ _ _ _ h := h
  updateBackup _ _ _ _ h := h
  submit job _ _ _ hj h x hx := by
    rcases List.mem_append.1 hx with hx | hx
    · exact h x hx
    · rw [List.mem_singleton.1 hx]
      exact hj
  drop _ _ _ _ h hsub x hx := h x (hsub.subset hx)
  finish _ _ _ _ h := h
  pending _ _ _ _ h := h _

/-- Between tasks, nothing is pending on the collection pool: `executeCreateBackup` keeps that,
though not at every step. -/
theorem executeCreateBackup_keeps_drained (ctx : Ctx) (request : CreateBackupRequest)
    (backupInfo : BackupInfo) :
    Keeps (fun _ cp _ => cp.pending = []) (fun _ => True)
      (executeCreateBackup ctx request backupInfo) s :=
  .of_triple (executeCreateBackup_drains ctx request backupInfo)
    (executeCreateBackup_keeps ctx request backupInfo (keptByBackup_ownJobs backupInfo.id))
    fun _ _ _ h j hj => by simp [h] at hj

end Drain

/-- **No collection job outlives its task**: along every schedule, a server whose collection
pool has no job pending has none pending after each action – every job a task submits is run
before the task ends, on its error paths too. -/
theorem server_run_drains {s : Setting} (actions : List Action) {srv : Server}
    (h : srv.world.collectionPool.pending = []) :
    (srv.run s actions).world.collectionPool.pending = [] :=
  Server.run_keeps (fun _ _ _ _ h => h) (executeCreateBackup_keeps_drained · · ·) actions
    (show srv.world.Holds fun _ cp _ => cp.pending = [] from h)

/-- A fresh server serving a request and its task. -/
theorem freshServer_drains :
    freshServer.world.collectionPool.pending = [] ∧
    (freshServer.run ⟨dailyConfig, emptyMilvusEnv, none⟩
      [.createBackup .request (dailyAsyncRequest "r1"), .runTask 0]).world.collectionPool.pending = [] :=
  ⟨rfl, server_run_drains _ rfl⟩


/-! ### Tasks waiting to run -/

/-- A server ready to run its tasks: no collection job pending, and every task waiting to run
recorded. -/
def Server.Ready (srv : Server) : Prop :=
  srv.world.collectionPool.pending = [] ∧
    ∀ t ∈ srv.tasks, (srv.world.meta.getBackup t.backup.id).isSome

section Ready

variable {s : Setting}

/-- A record stays recorded, and the pending jobs are those of the running task. -/
theorem keptByBackup_recorded_ownJobs (id taskId : String) :
    KeptByBackup taskId (fun m cp dp => Recorded id m cp dp ∧ ∀ j ∈ cp.pending, j.2.backupId = taskId)
    where
  addCollection _ _ _ _ _ h := h
  updateCollection _ _ _ _ _ h := h
  addPartition _ _ _ _ h := h
  addSegment _ _ _ _ h := h
  updateSegment _ _ _ _ _ _ h := h
  copyPool _ _ _ _ h := h
  updateBackup opts m _ _ h := ⟨(m.isSome_getBackup_updateBackup taskId opts id).trans h.1, h.2⟩
  submit job m cp dp hj h := ⟨h.1, (keptByBackup_ownJobs taskId).submit job m cp dp hj h.2⟩
  drop rest m cp dp h hsub := ⟨h.1, (keptByBackup_ownJobs taskId).drop rest m cp dp h.2 hsub⟩
  finish _ _ _ _ h := h
  pending _ _ _ _ h := h.2 _

/-- From a world with no collection job pending, a run of any task keeps every record. -/
theorem executeCreateBackup_keeps_recorded (id : String) (ctx : Ctx) (request : CreateBackupRequest)
    (backupInfo : BackupInfo) :
    Keeps (fun m cp dp => Recorded id m cp dp ∧ cp.pending = []) (fun _ => True)
      (executeCreateBackup ctx request backupInfo) s :=
  .of_triple (fun w hw => ⟨(executeCreateBackup_keeps ctx request backupInfo
      (keptByBackup_recorded_ownJobs id backupInfo.id) w ⟨hw.1, by simp [hw.2]⟩).1.1,
      executeCreateBackup_drains ctx request backupInfo w hw.2⟩)
    (executeCreateBackup_keeps ctx request backupInfo (keptByBackup_ownJobs backupInfo.id))
    fun _ _ _ h j hj => by simp [h.2] at hj

/-- One action keeps a server ready. -/
theorem Server.step_ready {srv : Server} (h : srv.Ready) : ∀ a, (srv.step s a).Ready
  | .createBackup ctx request => by
    refine ⟨(createBackup_keeps ctx request (fun _ _ _ _ h => h)
      (executeCreateBackup_keeps_drained ctx) _ h.1).1, fun t ht => ?_⟩
    rcases List.mem_append.1 ht with ht | ht
    · exact ((createBackup_keeps ctx request
        (fun b m _ _ hm => ⟨(m.isSome_getBackup_addBackup b _).2 (.inr hm.1), hm.2⟩)
        (executeCreateBackup_keeps_recorded t.backup.id ctx) _ ⟨h.2 t ht, h.1⟩).1).1
    · exact createBackup_records_task ctx request _ trivial t (Option.mem_toList.1 ht)
  | .runTask i => by
    dsimp only [Server.step]
    split
    · exact h
    · refine ⟨executeCreateBackup_drains _ _ _ _ h.1, fun t ht => ?_⟩
      exact ((executeCreateBackup_keeps_recorded t.backup.id _ _ _ _
        ⟨h.2 t (List.mem_of_mem_eraseIdx ht), h.1⟩).1).1

end Ready

/-- **Every task runs from a ready server**: along every schedule, a server with no collection
job pending and its waiting tasks recorded stays so – every task it runs starts from a world in
which its record exists and no collection job is pending. -/
theorem server_run_ready {s : Setting} : ∀ (actions : List Action) {srv : Server}, srv.Ready →
    (srv.run s actions).Ready :=
  Server.run_invariant Server.Ready fun _ a h => Server.step_ready h a

/-- A fresh server is ready, and stays so across a request and its task. -/
theorem freshServer_ready :
    freshServer.Ready ∧ (freshServer.run ⟨dailyConfig, emptyMilvusEnv, none⟩
      [.createBackup .request (dailyAsyncRequest "r1"), .runTask 0]).Ready :=
  ⟨⟨rfl, fun _ h => absurd h (List.not_mem_nil _)⟩,
    server_run_ready _ ⟨rfl, fun _ h => absurd h (List.not_mem_nil _)⟩⟩

end MilvusBackup
