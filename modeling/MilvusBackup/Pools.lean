import MilvusBackup.Create

/-!
# Fresh ids, and waiting on a batch

A worker pool hands out ids from a counter, `nextId`, and `WaitJobs(ids)` looks the results of
`ids` up by id in the list of finished jobs, first match first. Nothing in the code checks that
an id is handed out once; what makes the lookups right is that every id the pool holds,
pending or finished, is below `nextId` (`MilvusBackup.Pool.Fresh`). Submitting, taking a job
out and recording the result of a job that was pending all keep this
(`MilvusBackup.Keeps.waitJobs_fresh`), so a backup task keeps both pools fresh whatever its
outcome, and so does a server along every schedule (`MilvusBackup.Server.run_poolsFresh`).

On a fresh pool, waiting is the sequential program it stands for: `WaitJobs` on the ids
`SubmitWithId` has just returned runs exactly the jobs submitted, in order, and returns `nil`
only when each of them did (`MilvusBackup.waitJobs_batch`). Ids waited on a second time, whose
jobs are no longer pending, change nothing (`MilvusBackup.waitJobs_append_absent`): this is the
second wave of `executeCreateBackup`, which waits on the prepare jobs again before the execute
jobs.
-/

namespace MilvusBackup

open BackupM

/-! ### Fresh ids -/

/-- Every id a pool has handed out, pending or finished, is below `nextId`. -/
def Pool.Fresh {J : Type} (q : Pool J) : Prop :=
  (∀ x ∈ q.pending, x.1 < q.nextId) ∧ ∀ x ∈ q.finished, x.1 < q.nextId

namespace Pool.Fresh

variable {J : Type} {q : Pool J}

/-- A pool that has handed out nothing. -/
theorem empty : Pool.Fresh ({} : Pool J) :=
  ⟨nofun, nofun⟩

/-- `SubmitWithId` hands out `nextId` and moves past it. -/
theorem submit (h : q.Fresh) (job : J) :
    Pool.Fresh ⟨q.nextId + 1, q.pending ++ [(q.nextId, job)], q.finished⟩ := by
  refine ⟨fun x hx => ?_, fun x hx => Nat.lt_succ_of_lt (h.2 x hx)⟩
  rcases List.mem_append.mp hx with hx | hx
  · exact Nat.lt_succ_of_lt (h.1 x hx)
  · rw [List.mem_singleton.mp hx]
    exact Nat.lt_succ_self _

/-- Taking jobs out of the pending list. -/
theorem drop (h : q.Fresh) {rest : List (Nat × J)} (hsub : rest.Sublist q.pending) :
    Pool.Fresh ⟨q.nextId, rest, q.finished⟩ :=
  ⟨fun x hx => h.1 x (hsub.subset hx), h.2⟩

/-- Recording the result of a job whose id was handed out. -/
theorem finish (h : q.Fresh) {id : Nat} (hid : id < q.nextId) (r : Option GoError) :
    Pool.Fresh ⟨q.nextId, q.pending, q.finished ++ [(id, r)]⟩ := by
  refine ⟨h.1, fun x hx => ?_⟩
  rcases List.mem_append.mp hx with hx | hx
  · exact h.2 x hx
  · rw [List.mem_singleton.mp hx]
    exact hid

end Pool.Fresh

/-! ### Waiting on a batch -/

section Batch

variable {J : Type}

/-- The job `takePending` finds: the first one pending under `id`. -/
theorem takePending_fst (id : Nat) :
    ∀ l : List (Nat × J), (takePending id l).1 = (l.find? (·.1 = id)).map Prod.snd
  | [] => rfl
  | (i, job) :: rest => by
    unfold takePending
    by_cases hi : i = id <;> simp [hi, takePending_fst id rest]

/-- The job pending under a fresh id `n`, after the jobs under smaller ids. -/
theorem takePending_batch {n : Nat} {pending : List (Nat × J)} (hlt : ∀ x ∈ pending, x.1 < n)
    (job : J) (jobs : List J) :
    takePending n (pending ++ (job :: jobs).enumFrom n) =
      (some job, pending ++ jobs.enumFrom (n + 1)) := by
  refine Prod.ext ?_ ?_
  · rw [takePending_fst, List.find?_append,
      List.find?_eq_none.mpr fun x hx => by simpa using (hlt x hx).ne]
    simp
  · rw [takePending_snd, List.filter_append, List.filter_eq_self.mpr fun x hx => by
      simpa using (hlt x hx).ne, List.enumFrom_cons, List.filter_cons_of_neg (by simp),
      List.filter_eq_self.mpr fun x hx => by
        simpa using (Nat.lt_of_succ_le (List.le_fst_of_mem_enumFrom hx)).ne']

variable {p : PoolRef J} {get : World → Pool J} {set : Pool J → World → World}
  {run : J → BackupM (Option GoError)} {s : Setting}

/-- Running the first job of a batch pending under fresh ids, by a job that leaves the pool
alone: it runs with the rest of the batch pending, and its result is recorded under its id. -/
theorem runPending_batch (hp : p.Focuses get set) (hpool : ∀ job w, get (run job s w).2 = get w)
    {n : Nat} {pending : List (Nat × J)} (hlt : ∀ x ∈ pending, x.1 < n) (job : J) (jobs : List J)
    (w : World) (hpending : (get w).pending = pending ++ (job :: jobs).enumFrom n) :
    let w₀ := set ⟨(get w).nextId, pending ++ jobs.enumFrom (n + 1), (get w).finished⟩ w
    runPending p run n s w = ((), set ⟨(get w).nextId, pending ++ jobs.enumFrom (n + 1),
      (get w).finished ++ [(n, (run job s w₀).1)]⟩ (run job s w₀).2) := by
  intro w₀
  obtain ⟨focus⟩ := p
  have hf : ∀ w, focus w = (get w, fun q => set q w) := hp.focus_eq
  unfold runPending
  simp only [hf, hpending, takePending_batch hlt, hpool, hp.get_set]

/-- The loop of `WaitJobs` over a batch: the jobs run in order, each result is recorded under its
id, and a property that each job returning `nil` carries from one world to the next holds of
the whole batch when all of them do. -/
theorem forM_runPending_batch (hp : p.Focuses get set) (hpool : ∀ job w, get (run job s w).2 = get w)
    (Q : List J → World → Prop) (hQ : ∀ done q w, Q done (set q w) ↔ Q done w) :
    ∀ (jobs : List J), (∀ done job w, job ∈ jobs → Q done w → (run job s w).1 = none →
      Q (done ++ [job]) (run job s w).2) →
    ∀ (n : Nat) (done : List J) (w : World) (pending : List (Nat × J)),
    (∀ x ∈ pending, x.1 < n) → (∀ x ∈ (get w).finished, x.1 < n) →
    (get w).pending = pending ++ jobs.enumFrom n →
    ∃ rs : List (Option GoError), rs.length = jobs.length ∧
      get ((List.range' n jobs.length).forM (runPending p run) s w).2 =
        ⟨(get w).nextId, pending, (get w).finished ++ rs.enumFrom n⟩ ∧
      (Q done w → (∀ r ∈ rs, r = none) →
        Q (done ++ jobs) ((List.range' n jobs.length).forM (runPending p run) s w).2)
  | [], _, _, done, w, pending, _, _, hpending => by
    simp only [List.enumFrom_nil, List.append_nil] at hpending
    refine ⟨[], rfl, ?_, by simp⟩
    simp only [List.enumFrom_nil, List.append_nil, ← hpending]
    rfl
  | job :: jobs, hstep, n, done, w, pending, hlt, hfin, hpending => by
    simp only [List.length_cons, List.range'_succ, List.forM_cons', bind_apply,
      runPending_batch hp hpool hlt job jobs w hpending]
    set w₀ := set ⟨(get w).nextId, pending ++ jobs.enumFrom (n + 1), (get w).finished⟩ w
    obtain ⟨rs, hlen, hpool', hQ'⟩ := forM_runPending_batch hp hpool Q hQ jobs
      (fun done job w hj => hstep done job w (List.mem_cons_of_mem _ hj)) (n + 1)
      (done ++ [job]) (set ⟨(get w).nextId, pending ++ jobs.enumFrom (n + 1),
        (get w).finished ++ [(n, (run job s w₀).1)]⟩ (run job s w₀).2) pending
      (fun x hx => Nat.lt_succ_of_lt (hlt x hx)) (by
        rw [hp.get_set]
        intro x hx
        rcases List.mem_append.mp hx with hx | hx
        · exact Nat.lt_succ_of_lt (hfin x hx)
        · rw [List.mem_singleton.mp hx]; exact Nat.lt_succ_self n) (by rw [hp.get_set])
    refine ⟨(run job s w₀).1 :: rs, by simp [hlen], ?_, fun hq hnone => ?_⟩
    · rw [hpool', hp.get_set]
      simp
    · have hr := hnone _ (List.mem_cons_self _ _)
      have h₀ := hstep done job w₀ (List.mem_cons_self _ _) ((hQ _ _ _).mpr hq) hr
      simpa using hQ' ((hQ _ _ _).mpr h₀) fun r hr' => hnone r (List.mem_cons_of_mem _ hr')

/-- The first error among the results of a batch recorded after jobs under smaller ids: when
there is none, every job of the batch returned `nil`. -/
theorem firstError_batch : ∀ (rs : List (Option GoError)) (n : Nat)
    (finished : List (Nat × Option GoError)), (∀ x ∈ finished, x.1 < n) →
    firstError (finished ++ rs.enumFrom n) (List.range' n rs.length) = none → ∀ r ∈ rs, r = none
  | [], _, _, _, _ => by simp
  | r :: rs, n, finished, hlt, h => by
    have hlist : finished ++ (r :: rs).enumFrom n = (finished ++ [(n, r)]) ++ rs.enumFrom (n + 1) := by
      simp
    have hn : ((finished ++ [(n, r)]) ++ rs.enumFrom (n + 1)).lookup n = some r := by
      have hf : finished.lookup n = none :=
        List.lookup_eq_none_iff.mpr fun x hx => by simpa using (hlt x hx).ne'
      simp [List.lookup_append, hf]
    rw [hlist] at h
    simp only [firstError, List.length_cons, List.range'_succ, List.filterMap_cons, hn,
      Option.join] at h
    cases r with
    | some e => simp at h
    | none =>
      refine List.forall_mem_cons.2 ⟨rfl, firstError_batch rs (n + 1) _ (fun x hx => ?_) h⟩
      rcases List.mem_append.mp hx with hx | hx
      · exact Nat.lt_succ_of_lt (hlt x hx)
      · rw [List.mem_singleton.mp hx]; exact Nat.lt_succ_self n

/-- **Waiting on a fresh batch runs the batch**: `WaitJobs` on the ids of jobs submitted after
every id the pool had handed out runs exactly these jobs, in the order of submission, records
one result for each, and returns `nil` only when each of them did – so a property each job
returning `nil` carries forward holds after the wait. -/
theorem waitJobs_batch (hp : p.Focuses get set) (hpool : ∀ job w, get (run job s w).2 = get w)
    (Q : List J → World → Prop) (hQ : ∀ done q w, Q done (set q w) ↔ Q done w) (jobs : List J)
    (hstep : ∀ done job w, job ∈ jobs → Q done w → (run job s w).1 = none →
      Q (done ++ [job]) (run job s w).2)
    (n : Nat) (done : List J) (w : World) (pending : List (Nat × J))
    (hlt : ∀ x ∈ pending, x.1 < n) (hfin : ∀ x ∈ (get w).finished, x.1 < n)
    (hpending : (get w).pending = pending ++ jobs.enumFrom n) :
    (∃ rs : List (Option GoError), rs.length = jobs.length ∧
      get (waitJobs p run (List.range' n jobs.length) s w).2 =
        ⟨(get w).nextId, pending, (get w).finished ++ rs.enumFrom n⟩) ∧
    ((waitJobs p run (List.range' n jobs.length) s w).1 = none → Q done w →
      Q (done ++ jobs) (waitJobs p run (List.range' n jobs.length) s w).2) := by
  obtain ⟨rs, hlen, hget, hQ'⟩ :=
    forM_runPending_batch hp hpool Q hQ jobs hstep n done w pending hlt hfin hpending
  have heq : waitJobs p run (List.range' n jobs.length) s w =
      (firstError (get ((List.range' n jobs.length).forM (runPending p run) s w).2).finished
        (List.range' n jobs.length), ((List.range' n jobs.length).forM (runPending p run) s w).2) := by
    simp [waitJobs, getPool, hp.focus_eq, hp.set_get]
  rw [heq]
  refine ⟨⟨rs, hlen, hget⟩, fun hnone hq => hQ' hq (firstError_batch rs n _ hfin ?_)⟩
  rw [hget, ← hlen] at hnone
  exact hnone

/-- `SubmitWithId` through a reference that focuses on a pool. -/
theorem submitWithId_apply (hp : p.Focuses get set) (job : J) (w : World) :
    submitWithId p job s w = ((get w).nextId, set ⟨(get w).nextId + 1,
      (get w).pending ++ [((get w).nextId, job)], (get w).finished⟩ w) := by
  simp [submitWithId, hp.focus_eq]

/-- Submitting a list of jobs: they are pending, in order, under consecutive fresh ids, which
are returned. -/
theorem mapM_loop_submitWithId (hp : p.Focuses get set) (hset : ∀ q q' w, set q (set q' w) = set q w)
    {β : Type} (f : β → J) : ∀ (bs : List β) (acc : List Nat) (w : World),
    List.mapM.loop (fun b => submitWithId p (f b)) bs acc s w =
      (acc.reverse ++ List.range' (get w).nextId bs.length, set ⟨(get w).nextId + bs.length,
        (get w).pending ++ (bs.map f).enumFrom (get w).nextId, (get w).finished⟩ w)
  | [], acc, w => by simp [List.mapM.loop, hp.set_get]
  | b :: bs, acc, w => by
    simp only [List.mapM.loop, bind_apply, submitWithId_apply hp,
      mapM_loop_submitWithId hp hset f bs, hp.get_set, hset]
    simp [List.range'_succ, Nat.add_assoc, Nat.add_comm 1]

/-- **Submitting a batch and waiting on it**, on a fresh pool: the pool is fresh after, with the
pending jobs it had and `nextId` moved past the batch, and a property each job of the batch
carries forward when it returns `nil` holds after a wait that returns `nil`. -/
theorem waitJobs_mapM_submitWithId (hp : p.Focuses get set)
    (hset : ∀ q q' w, set q (set q' w) = set q w) (hpool : ∀ job w, get (run job s w).2 = get w)
    (Q : List J → World → Prop) (hQ : ∀ done q w, Q done (set q w) ↔ Q done w) {β : Type}
    (f : β → J) (bs : List β)
    (hstep : ∀ done job w, job ∈ bs.map f → Q done w → (run job s w).1 = none →
      Q (done ++ [job]) (run job s w).2)
    (done : List J) (w : World) (hfresh : (get w).Fresh) :
    let sub := (bs.mapM fun b => submitWithId p (f b)) s w
    let r := waitJobs p run sub.1 s sub.2
    ((get r.2).Fresh ∧ (get r.2).pending = (get w).pending ∧
      (get r.2).nextId = (get w).nextId + bs.length) ∧
    (r.1 = none → Q done w → Q (done ++ bs.map f) r.2) := by
  intro sub r
  set w₀ := set ⟨(get w).nextId + bs.length, (get w).pending ++ (bs.map f).enumFrom (get w).nextId,
    (get w).finished⟩ w
  have hsub : sub = (List.range' (get w).nextId (bs.map f).length, w₀) := by
    simp only [sub, List.mapM, mapM_loop_submitWithId hp hset f, List.reverse_nil, List.nil_append,
      List.length_map]
  obtain ⟨⟨rs, hlen, hget⟩, hQ'⟩ := waitJobs_batch hp hpool Q hQ (bs.map f) hstep (get w).nextId
    done w₀ (get w).pending hfresh.1 (by rw [hp.get_set]; exact hfresh.2) (by rw [hp.get_set])
  simp only [List.length_map] at hget hQ' hlen
  simp only [r, hsub, List.length_map, hget, hp.get_set, and_true]
  refine ⟨⟨fun x hx => Nat.lt_add_right _ (hfresh.1 x hx), fun x hx => ?_⟩,
    fun hr hq => hQ' hr ((hQ _ _ _).mpr hq)⟩
  rcases List.mem_append.mp hx with hx | hx
  · exact Nat.lt_add_right _ (hfresh.2 x hx)
  · simpa [hlen] using List.fst_lt_add_of_mem_enumFrom hx

/-- Waiting on ids none of which is pending: the jobs already run are not run again. -/
theorem forM_runPending_absent (hp : p.Focuses get set) (ids : List Nat) :
    ∀ (pre : List Nat) (w : World), (∀ i ∈ pre, ∀ x ∈ (get w).pending, x.1 ≠ i) →
    (pre ++ ids).forM (runPending p run) s w = ids.forM (runPending p run) s w
  | [], _, _ => rfl
  | i :: pre, w, habsent => by
    have hrun : runPending p run i s w = ((), w) := by
      obtain ⟨focus⟩ := p
      have hf : ∀ w, focus w = (get w, fun q => set q w) := hp.focus_eq
      have hnone : takePending i (get w).pending = (none, (get w).pending) := by
        refine Prod.ext ?_ ?_
        · rw [takePending_fst, List.find?_eq_none.mpr fun x hx => by
            simpa using habsent i (List.mem_cons_self _ _) x hx]
          rfl
        · rw [takePending_snd, List.filter_eq_self.mpr fun x hx => by
            simpa using habsent i (List.mem_cons_self _ _) x hx]
      unfold runPending
      simp only [hf, hnone]
      exact congrArg _ (hp.set_get w)
    rw [List.cons_append, List.forM_cons', bind_apply, hrun]
    exact forM_runPending_absent hp ids pre w fun j hj => habsent j (List.mem_cons_of_mem _ hj)

/-- Waiting on ids none of which is pending anymore, then on `ids`, is waiting on `ids`: a job
that has run is not run twice, and the first error is searched among more results. -/
theorem waitJobs_append_absent (hp : p.Focuses get set) (pre ids : List Nat) (w : World)
    (habsent : ∀ i ∈ pre, ∀ x ∈ (get w).pending, x.1 ≠ i) :
    (waitJobs p run (pre ++ ids) s w).2 = (waitJobs p run ids s w).2 ∧
      ((waitJobs p run (pre ++ ids) s w).1 = none → (waitJobs p run ids s w).1 = none) := by
  simp only [waitJobs, getPool, bind_apply, hp.focus_eq, pure_apply,
    forM_runPending_absent hp ids pre w habsent, true_and]
  simp [firstError, List.filterMap_append]

variable {I : Invariant} {P : Event → Prop}

/-- Running the job pending under `id` keeps an invariant under which the pool is fresh, when
recording the result of a job that was pending keeps it: the id of such a job is below
`nextId`, which a job that leaves the pool alone does not move. -/
theorem Keeps.runPending_fresh (hp : p.Focuses get set) (hpool : ∀ job w, get (run job s w).2 = get w)
    {id : Nat} (hfresh : ∀ w, w.Holds I → (get w).Fresh)
    (hdrop : ∀ w rest, w.Holds I → rest.Sublist (get w).pending →
      (set ⟨(get w).nextId, rest, (get w).finished⟩ w).Holds I)
    (hfinish : ∀ w r, w.Holds I → id < (get w).nextId →
      (set ⟨(get w).nextId, (get w).pending, (get w).finished ++ [(id, r)]⟩ w).Holds I)
    (hrun : ∀ job, Keeps I P (run job) s) :
    Keeps I P (MilvusBackup.runPending p run id) s := fun w hw => by
  obtain ⟨hsub, hmem⟩ := takePending_sublist id (get w).pending
  obtain ⟨focus⟩ := p
  have hf : ∀ w, focus w = (get w, fun q => set q w) := hp.focus_eq
  unfold MilvusBackup.runPending
  simp only [hf]
  rcases ht : takePending id (get w).pending with ⟨_ | job, rest⟩ <;> rw [ht] at hsub hmem <;>
    dsimp only
  · exact ⟨hdrop w rest hw hsub, [], by rw [hp.log_set, List.append_nil], by simp⟩
  · obtain ⟨hw', l, hl, hP⟩ := hrun job _ (hdrop w rest hw hsub)
    have hid : id < (get (run job s (set ⟨(get w).nextId, rest, (get w).finished⟩ w)).2).nextId := by
      rw [hpool, hp.get_set]
      exact (hfresh w hw).1 _ (hmem job rfl)
    exact ⟨hfinish _ _ hw' hid, l, by rw [hp.log_set, hl, hp.log_set], hP⟩

@[inherit_doc Keeps.runPending_fresh]
theorem Keeps.waitJobs_fresh (hp : p.Focuses get set) (hpool : ∀ job w, get (run job s w).2 = get w)
    (hfresh : ∀ w, w.Holds I → (get w).Fresh)
    (hdrop : ∀ w rest, w.Holds I → rest.Sublist (get w).pending →
      (set ⟨(get w).nextId, rest, (get w).finished⟩ w).Holds I)
    (hfinish : ∀ w id r, w.Holds I → id < (get w).nextId →
      (set ⟨(get w).nextId, (get w).pending, (get w).finished ++ [(id, r)]⟩ w).Holds I)
    (hrun : ∀ job, Keeps I P (run job) s) {ids : List Nat} :
    Keeps I P (MilvusBackup.waitJobs p run ids) s :=
  .bind (.forM fun _ _ => .runPending_fresh hp hpool hfresh hdrop (fun w => hfinish w _) hrun)
    fun _ => .bind (Keeps.getPool hp) fun _ => .pure _

end Batch

/-! ### Fresh ids along every schedule -/

section Fresh

/-- Both pools hand out fresh ids. -/
def PoolsFresh : Invariant := fun _ cp dp => cp.Fresh ∧ dp.Fresh

/-- A copy leaves the copy pool alone. -/
theorem copySegment_copyPool (ctx : Ctx) (segmentID : Int) (s : Setting) (w : World) :
    (copySegment ctx segmentID s w).2.copyPool = w.copyPool :=
  ((copySegment_keeps ctx segmentID s fun _ _ _ _ _ h => h :
    Keeps (fun _ _ dp => dp = w.copyPool) (fun _ => True) _ s) w rfl).1

/-- A collection job leaves the collection pool alone. -/
theorem runCollectionJob_collectionPool (job : CollectionJob) (s : Setting) (w : World) :
    (runCollectionJob job s w).2.collectionPool = w.collectionPool :=
  ((runCollectionJob_keeps job ⟨fun _ _ _ _ _ h => h, fun _ _ _ _ _ h => h, fun _ _ _ _ h => h,
      fun _ _ _ _ h => h, fun _ _ _ _ _ _ h => h, fun _ _ _ _ h => h⟩ :
    Keeps (fun _ cp _ => cp = w.collectionPool) (fun _ => True) _ s) w rfl).1

/-- A collection job keeps both pools fresh: an execute job submits copies under fresh ids and
records the results of the copies it runs. -/
theorem runCollectionJob_keeps_fresh (job : CollectionJob) (s : Setting) :
    Keeps PoolsFresh (fun _ => True) (runCollectionJob job) s := by
  cases job with
  | prepare backupInfo collection force =>
    exact .retryDo (backupCollectionPrepare_keeps _ _ _ _ (fun _ _ _ _ _ h => h)
      (fun _ _ _ _ _ h => h) (fun _ _ _ _ h => h) (fun _ _ _ _ h => h)) _
  | execute collectionBackup =>
    exact backupCollectionExecute_keeps_of_copies _ _ (fun _ => copySegments_keeps_of_wait _
      (fun _ _ _ _ _ _ _ h => h) (fun _ _ _ _ _ h => ⟨h.1, h.2.submit _⟩)
      fun _ => .waitJobs_fresh copyPoolRef_focuses (copySegment_copyPool .engine · s ·)
        (fun _ h => h.2) (fun _ _ h hsub => by exact ⟨h.1, h.2.drop hsub⟩)
        (fun _ _ _ h hid => by exact ⟨h.1, h.2.finish hid _⟩) fun _ => copySegment_keeps _ _ s
          fun _ _ _ _ _ h => h) fun _ _ _ _ _ h => h

/-- **Pool ids stay fresh**: a backup task, whatever its outcome, keeps both pools fresh. -/
theorem executeCreateBackup_keeps_fresh (ctx : Ctx) (request : CreateBackupRequest)
    (backupInfo : BackupInfo) (s : Setting) :
    Keeps PoolsFresh (fun _ => True) (executeCreateBackup ctx request backupInfo) s :=
  executeCreateBackup_keeps_of_wait ctx request backupInfo
    (fun _ => .waitJobs_fresh collectionPoolRef_focuses (runCollectionJob_collectionPool · s ·)
      (fun _ h => h.1) (fun _ _ h hsub => by exact ⟨h.1.drop hsub, h.2⟩)
      (fun _ _ _ h hid => by exact ⟨h.1.finish hid _, h.2⟩) fun job => runCollectionJob_keeps_fresh job s)
    (fun _ _ _ _ h => h) (fun _ _ _ _ _ h => ⟨h.1.submit _, h.2⟩) (fun _ => trivial)
    fun _ _ => trivial

/-- Along every schedule from a fresh server, both pools hand out fresh ids. -/
theorem Server.run_poolsFresh (s : Setting) (actions : List Action) :
    (freshServer.run s actions).world.Holds PoolsFresh :=
  Server.run_keeps (fun _ _ _ _ h => h) (fun ctx request backupInfo =>
    executeCreateBackup_keeps_fresh ctx request backupInfo s) actions ⟨.empty, .empty⟩

end Fresh

end MilvusBackup
