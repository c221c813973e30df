import MilvusBackup.World

/-!
# Invariants of whole runs

`MilvusBackup.Keeps I P x s` says that `x`, run in the setting `s` from any world in which the
invariant `I` holds, ends in a world in which it holds, having appended to the log only events
satisfying `P`. An invariant reads the MetaManager and the two pools, never the clock or the log,
so that it is a property of what a backup context stores.

This file is the set of rules the run lemmas of the later files are worked from:

* the **sequencing rules** – `pure`, `bind`, `forM`, `mapM`, `retryDo` – ask nothing of `I`;
* an **external call** keeps every invariant, a **write to the MetaManager** the invariants the
  write keeps, a **logged event** every invariant, provided the event satisfies `P`;
* a **worker pool** keeps `I` when submitting and dropping jobs do and every job it may run keeps
  it (`MilvusBackup.Keeps.waitJobs`). A pool runs only pending jobs, so the invariant is where a
  proof says which jobs those can be.
-/

namespace MilvusBackup

open BackupM

/-- What an invariant of runs reads: the MetaManager and the two pools. -/
def Invariant : Type := MetaManager → Pool CollectionJob → Pool Int → Prop

/-- The invariant `I` holds in `w`. -/
def World.Holds (I : Invariant) (w : World) : Prop := I w.meta w.collectionPool w.copyPool

/-- From every world in which `I` holds, `x` run in the setting `s` ends in one in which it
holds, having appended to the log only events satisfying `P`. -/
def Keeps {α : Type} (I : Invariant) (P : Event → Prop) (x : BackupM α) (s : Setting) : Prop :=
  ∀ w, w.Holds I → (x s w).2.Holds I ∧ ∃ l, (x s w).2.log = w.log ++ l ∧ ∀ e ∈ l, P e

namespace Keeps

variable {α β γ : Type} {I : Invariant} {P Q : Event → Prop} {s : Setting}

theorem mono {x : BackupM α} (h : Keeps I P x s) (hPQ : ∀ e, P e → Q e) : Keeps I Q x s :=
  fun w hw => (h w hw).imp_right fun ⟨l, hl, hP⟩ => ⟨l, hl, fun e he => hPQ e (hP e he)⟩

/-- A computation that leaves the world as it is. -/
theorem of_eq {x : BackupM α} (h : ∀ w, (x s w).2 = w) : Keeps I P x s :=
  fun w hw => ⟨(h w).symm ▸ hw, [], by rw [h, List.append_nil], by simp⟩

theorem pure (a : α) : Keeps I P (Pure.pure a : BackupM α) s := of_eq fun _ => rfl

/-- A `bind` whose second step may rely on what the first one returns. -/
theorem bind_ensures {R : α → Prop} {x : BackupM α} {f : α → BackupM β} (hx : Keeps I P x s)
    (hR : Ensures R x s) (hf : ∀ a, R a → Keeps I P (f a) s) : Keeps I P (x >>= f) s :=
  fun w hw => by
  obtain ⟨hw₁, l, hl, hP⟩ := hx w hw
  obtain ⟨hw₂, l', hl', hP'⟩ := hf (x s w).1 (hR w) (x s w).2 hw₁
  exact ⟨hw₂, l ++ l', by simp [hl', hl], by simpa [or_imp, forall_and] using And.intro hP hP'⟩

theorem bind {x : BackupM α} {f : α → BackupM β} (hx : Keeps I P x s)
    (hf : ∀ a, Keeps I P (f a) s) : Keeps I P (x >>= f) s :=
  bind_ensures hx (.triv x) fun a _ => hf a

/-- A `bind` whose first step reads the setting: the rest runs on `s` itself. -/
theorem setting_bind {f : Setting → BackupM β} (hf : Keeps I P (f s) s) :
    Keeps I P (setting >>= f) s := hf

theorem meta : Keeps I P BackupM.meta s := of_eq fun _ => rfl

theorem clockNow : Keeps I P BackupM.clockNow s := of_eq fun _ => rfl

/-- A `bind` whose first step reads the MetaManager: the rest may rely on the invariant holding
of what it read. -/
theorem meta_bind {f : MetaManager → BackupM β}
    (hf : ∀ m, (∃ cp dp, I m cp dp) → Keeps I P (f m) s) : Keeps I P (BackupM.meta >>= f) s :=
  fun w hw => hf w.meta ⟨_, _, hw⟩ w hw

/-- An external call moves the clock only. -/
theorem call (ctx : Ctx) (answer : Env → Nat → Bool → α) : Keeps I P (BackupM.call ctx answer) s :=
  fun _ hw => ⟨hw, [], by simp, by simp⟩

theorem logEvent {e : Event} (h : P e) : Keeps I P (BackupM.logEvent e) s :=
  fun _ hw => ⟨hw, [e], rfl, by simpa using h⟩

theorem modifyMeta {f : MetaManager → MetaManager}
    (h : ∀ m cp dp, I m cp dp → I (f m) cp dp) : Keeps I P (BackupM.modifyMeta f) s :=
  fun _ hw => ⟨h _ _ _ hw, [], by simp, by simp⟩

theorem forM {l : List β} {f : β → BackupM PUnit} (h : ∀ b ∈ l, Keeps I P (f b) s) :
    Keeps I P (l.forM f) s := by
  induction l with
  | nil => exact pure _
  | cons b l ih =>
    exact bind (h b (List.mem_cons_self _ _)) fun _ => ih fun b hb => h b (List.mem_cons_of_mem _ hb)

theorem mapM {l : List β} {f : β → BackupM γ} (h : ∀ b ∈ l, Keeps I P (f b) s) :
    Keeps I P (l.mapM f) s := by
  suffices ∀ acc, Keeps I P (List.mapM.loop f l acc) s from this []
  induction l with
  | nil => exact fun _ => pure _
  | cons b l ih =>
    exact fun acc => bind (h b (List.mem_cons_self _ _)) fun c =>
      ih (fun b hb => h b (List.mem_cons_of_mem _ hb)) (c :: acc)

theorem retryDo {ctx : Ctx} {fn : BackupM (Option GoError)} (h : Keeps I P fn s) :
    ∀ n, Keeps I P (MilvusBackup.retryDo ctx fn n) s
  | 0 => pure _
  | n + 1 => bind h fun r => by
    rcases r with _ | err
    · exact pure _
    · by_cases hn : n = 0
      · simpa [hn] using pure (some err)
      · simp only [hn, if_false]
        refine setting_bind (bind clockNow fun c => ?_)
        by_cases hc : s.cancelled ctx c
        · simpa [hc] using pure (some contextCanceled)
        · simpa [hc] using retryDo h n

/-- The object store's calls keep every invariant. -/
theorem write (ctx : Ctx) (bucket path : String) (blob : Blob) :
    Keeps I (fun _ => True) (MilvusBackup.write ctx bucket path blob) s :=
  bind (call _ _) fun _ => by split; exacts [bind (logEvent trivial) fun _ => pure _, pure _]

@[inherit_doc write]
theorem copy (ctx : Ctx) (srcBucket dstBucket src dst : String) :
    Keeps I (fun _ => True) (MilvusBackup.copy ctx srcBucket dstBucket src dst) s :=
  bind (call _ _) fun _ => by split; exacts [bind (logEvent trivial) fun _ => pure _, pure _]

@[inherit_doc write]
theorem removeWithPrefix (ctx : Ctx) (bucket pre : String) :
    Keeps I (fun _ => True) (MilvusBackup.removeWithPrefix ctx bucket pre) s :=
  bind (call _ _) fun _ => by split; exacts [bind (logEvent trivial) fun _ => pure _, pure _]

@[inherit_doc Ensures.ite]
theorem ite {c : Prop} [Decidable c] {x y : BackupM α} (hx : c → Keeps I P x s)
    (hy : ¬c → Keeps I P y s) : Keeps I P (if c then x else y) s := by
  split
  exacts [hx ‹_›, hy ‹_›]

/-- An invariant kept by a computation whatever it logs, and a bound on what it logs. -/
theorem of_appends {x : BackupM α} (h : Keeps I (fun _ => True) x s) (hx : Appends P x s) :
    Keeps I P x s := fun w hw => ⟨(h w hw).1, hx w⟩

/-- An invariant kept is a pre- and postcondition. -/
theorem triple {x : BackupM α} (h : Keeps I (fun _ => True) x s) :
    Triple (World.Holds I) x (fun _ w => w.Holds I) s := fun w hw => (h w hw).1

/-- The converse, for a computation whose events are bounded by a weaker invariant `J` it keeps:
an invariant that need not hold in between, only before and after. -/
theorem of_triple {J : Invariant} {x : BackupM α}
    (h : Triple (World.Holds I) x (fun _ w => w.Holds I) s) (hJ : Keeps J P x s)
    (hIJ : ∀ m cp dp, I m cp dp → J m cp dp) : Keeps I P x s :=
  fun w hw => ⟨h w hw, (hJ w (hIJ _ _ _ hw)).2⟩

/-- An invariant kept, with what is returned. -/
theorem triple_of_ensures {x : BackupM α} {R : α → Prop} (h : Keeps I (fun _ => True) x s)
    (hR : Ensures R x s) :
    Triple (World.Holds I) x (fun a w => R a ∧ w.Holds I) s := fun w hw => ⟨hR w, (h w hw).1⟩

/-- A computation that keeps the MetaManager `m` keeps it as a pre- and postcondition. -/
theorem triple_meta {x : BackupM α} {m : MetaManager}
    (h : Keeps (fun m' _ _ => m' = m) (fun _ => True) x s) :
    Triple (fun w => w.meta = m) x (fun _ w => w.meta = m) s := fun w hw => (h w hw).1

/-- A computation that keeps the MetaManager `m` and returns `a`. -/
theorem triple_meta_eq {x : BackupM α} {a : α} {m : MetaManager}
    (h : Keeps (fun m' _ _ => m' = m) (fun _ => True) x s) (ha : Ensures (· = a) x s) :
    Triple (fun w => w.meta = m) x (fun r w => r = a ∧ w.meta = m) s := fun w hw =>
  ⟨ha w, (h w hw).1⟩

/-- A computation that logs nothing leaves the log as it is. -/
theorem triple_log {x : BackupM α} {l : List Event}
    (h : Keeps (fun _ _ _ => True) (fun _ => False) x s) :
    Triple (fun w => w.log = l) x (fun _ w => w.log = l) s := fun w hw => by
  obtain ⟨l', hl, hf⟩ := (h w trivial).2
  rw [hl, hw, List.eq_nil_iff_forall_not_mem.2 hf, List.append_nil]

end Keeps

/-- A call followed by a step: the step runs on what the behaviour answers at some tick. -/
theorem Triple.call_bind {α β : Type} {ctx : Ctx} {answer : Env → Nat → Bool → α}
    {f : α → BackupM β} {I : Invariant} {Q : β → World → Prop} {s : Setting}
    (hf : ∀ t cancelled, Triple (World.Holds I) (f (answer s.env t cancelled)) Q s) :
    Triple (World.Holds I) (BackupM.call ctx answer >>= f) Q s :=
  fun w hw => hf w.clock _ w.tick hw

/-! ### Worker pools -/

/-- `p` reads the pool `get` reads, and writes it back with `set`, which changes nothing else
that a run reads off the world: its log, or the world when the pool is written back unchanged. -/
structure PoolRef.Focuses {J : Type} (p : PoolRef J) (get : World → Pool J)
    (set : Pool J → World → World) : Prop where
  focus_eq : ∀ w, p.focus w = (get w, fun q => set q w)
  set_get : ∀ w, set (get w) w = w
  get_set : ∀ q w, get (set q w) = q
  log_set : ∀ q w, (set q w).log = w.log

theorem collectionPoolRef_focuses :
    collectionPoolRef.Focuses World.collectionPool fun q w => { w with collectionPool := q } :=
  ⟨fun _ => rfl, fun _ => rfl, fun _ _ => rfl, fun _ _ => rfl⟩

theorem copyPoolRef_focuses :
    copyPoolRef.Focuses World.copyPool fun q w => { w with copyPool := q } :=
  ⟨fun _ => rfl, fun _ => rfl, fun _ _ => rfl, fun _ _ => rfl⟩

section Pools

variable {J : Type}

/-- What `takePending` hands back: a job pending under `id`, and the other jobs. -/
theorem takePending_sublist (id : Nat) :
    ∀ l : List (Nat × J), (takePending id l).2.Sublist l ∧
      ∀ job, (takePending id l).1 = some job → (id, job) ∈ l
  | [] => ⟨List.Sublist.slnil, fun _ h => nomatch h⟩
  | (i, job) :: rest => by
    obtain ⟨hsub, hmem⟩ := takePending_sublist id rest
    unfold takePending
    by_cases hi : i = id
    · subst hi
      simp only [↓reduceIte, Option.some.injEq]
      exact ⟨hsub.cons _, fun _ h => h ▸ List.mem_cons_self _ _⟩
    · simp only [if_neg hi]
      exact ⟨hsub.cons₂ _, fun j h => List.mem_cons_of_mem _ (hmem j h)⟩

/-- `takePending` drops every job pending under `id`. -/
theorem takePending_snd (id : Nat) :
    ∀ l : List (Nat × J), (takePending id l).2 = l.filter fun x => x.1 ≠ id
  | [] => rfl
  | (i, job) :: rest => by
    unfold takePending
    by_cases hi : i = id <;> simp [hi, takePending_snd id rest]

variable {I : Invariant} {P : Event → Prop} {s : Setting} {p : PoolRef J}
  {get : World → Pool J} {set : Pool J → World → World}

theorem Keeps.submitWithId (hp : p.Focuses get set) {job : J}
    (h : ∀ w, w.Holds I →
      (set ⟨(get w).nextId + 1, (get w).pending ++ [((get w).nextId, job)], (get w).finished⟩ w).Holds I) :
    Keeps I P (MilvusBackup.submitWithId p job) s := fun w hw => by
  unfold MilvusBackup.submitWithId
  rw [hp.focus_eq]
  exact ⟨h w hw, [], by rw [hp.log_set, List.append_nil], by simp⟩

theorem Keeps.getPool (hp : p.Focuses get set) : Keeps I P (MilvusBackup.getPool p) s :=
  of_eq fun w => by unfold MilvusBackup.getPool; rw [hp.focus_eq]; exact hp.set_get w

/-- **A pool keeps what its jobs keep**: running the job pending under `id` keeps `I` when
taking jobs out of the pending list and recording a result keep it, and so does every job that
can be pending in a world where `I` holds. -/
theorem Keeps.runPending (hp : p.Focuses get set) {run : J → BackupM (Option GoError)} {id : Nat}
    (hdrop : ∀ w rest, w.Holds I → rest.Sublist (get w).pending →
      (set ⟨(get w).nextId, rest, (get w).finished⟩ w).Holds I)
    (hfinish : ∀ w r, w.Holds I →
      (set ⟨(get w).nextId, (get w).pending, (get w).finished ++ [(id, r)]⟩ w).Holds I)
    (hrun : ∀ w job, w.Holds I → (id, job) ∈ (get w).pending → Keeps I P (run job) s) :
    Keeps I P (MilvusBackup.runPending p run id) s := fun w hw => by
  obtain ⟨hsub, hmem⟩ := takePending_sublist id (get w).pending
  obtain ⟨focus⟩ := p
  have hf : ∀ w, focus w = (get w, fun q => set q w) := hp.focus_eq
  unfold MilvusBackup.runPending
  simp only [hf]
  rcases ht : takePending id (get w).pending with ⟨_ | job, rest⟩ <;> rw [ht] at hsub hmem <;>
    dsimp only
  · exact ⟨hdrop w rest hw hsub, [], by rw [hp.log_set, List.append_nil], by simp⟩
  · obtain ⟨hw', l, hl, hP⟩ := hrun w job hw (hmem job rfl) _ (hdrop w rest hw hsub)
    exact ⟨hfinish _ _ hw', l, by rw [hp.log_set, hl, hp.log_set], hP⟩

/-- **Waiting keeps what the pending jobs keep.** -/
theorem Keeps.waitJobs (hp : p.Focuses get set) {run : J → BackupM (Option GoError)}
    {ids : List Nat}
    (hdrop : ∀ w rest, w.Holds I → rest.Sublist (get w).pending →
      (set ⟨(get w).nextId, rest, (get w).finished⟩ w).Holds I)
    (hfinish : ∀ w r, w.Holds I →
      (set ⟨(get w).nextId, (get w).pending, (get w).finished ++ [r]⟩ w).Holds I)
    (hrun : ∀ w j, w.Holds I → j ∈ (get w).pending → Keeps I P (run j.2) s) :
    Keeps I P (MilvusBackup.waitJobs p run ids) s :=
  .bind (.forM fun _ _ => .runPending hp hdrop (fun w _ => hfinish w _)
    fun w job hw hj => hrun w (_, job) hw hj) fun _ => .bind (Keeps.getPool hp) fun _ => .pure _

end Pools

end MilvusBackup
