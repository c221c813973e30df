import MilvusBackup.Execute

/-!
# Retrying prepare

A prepare job runs `backupCollectionPrepare` inside `retry.Do` with 128 attempts, and an attempt
that fails after adding its collection record has written to the MetaManager. The writes are
safe to repeat because of how prepare orders them:

* **A failed attempt writes only the collection record.** It adds the record and, without
  `force`, may record a flush's checkpoints on it; partition and segment records are written
  only once every call has succeeded (`MilvusBackup.backupCollectionPrepare_failed_keeps`).
* **An attempt never reads what it overwrites.** Prepare reads nothing of the MetaManager, and
  its first write is the `AddCollection` of the record, an upsert by `(backup id, collection
  id)` that replaces the record whole. Run from two worlds that differ only in that record, it
  answers the same, and when it succeeds it ends in the same world
  (`MilvusBackup.backupCollectionPrepare_agrees`).

Together: a prepare job that succeeds ends in exactly the world one attempt, made from the
job's own world at a later tick, ends in (`MilvusBackup.runCollectionJob_prepare_retried`). This
needs Milvus to give the collection the same id at every attempt.
-/

namespace MilvusBackup

open BackupM

/-- Whenever Milvus describes the collection, it gives it the id `collectionId`: the collection
is not dropped and created again under its name. -/
def Env.KeepsCollectionId (e : Env) (collection : CollectionStruct) (collectionId : Int) : Prop :=
  ∀ t cancelled, (e.describeCollection t cancelled collection.db collection.collectionName).2 = none →
    (e.describeCollection t cancelled collection.db collection.collectionName).1.id = collectionId

/-- Prepare writes the MetaManager only: it logs nothing and leaves the pools alone. -/
theorem backupCollectionPrepare_frame (ctx : Ctx) (backupInfo : BackupInfo)
    (collection : CollectionStruct) (force : Bool) (s : Setting) (w : World) :
    (backupCollectionPrepare ctx backupInfo collection force s w).2.log = w.log ∧
      (backupCollectionPrepare ctx backupInfo collection force s w).2.collectionPool =
        w.collectionPool ∧
      (backupCollectionPrepare ctx backupInfo collection force s w).2.copyPool = w.copyPool := by
  obtain ⟨⟨hcp, hdp⟩, l, hl, hP⟩ := (backupCollectionPrepare_keeps ctx backupInfo collection force
    (fun _ _ _ _ _ h => h) (fun _ _ _ _ _ h => h) (fun _ _ _ _ h => h) (fun _ _ _ _ h => h) :
    Keeps (fun _ cp dp => cp = w.collectionPool ∧ dp = w.copyPool) (fun _ => False) _ s) w ⟨rfl, rfl⟩
  exact ⟨by rw [hl, List.eq_nil_iff_forall_not_mem.2 hP, List.append_nil], hcp, hdp⟩

section Failed

variable {ctx : Ctx} {backupInfo : BackupInfo} {collection : CollectionStruct} {force : Bool}
  {collectionId : Int} {s : Setting}

/-- **What a failed prepare leaves**: every invariant that adding and updating the collection
record keeps, since prepare writes partition and segment records only once every call has
succeeded. -/
theorem backupCollectionPrepare_failed_keeps {I : Invariant}
    (hid : s.env.KeepsCollectionId collection collectionId)
    (hcoll : ∀ c m cp dp, c.id = backupInfo.id → c.collectionId = collectionId → I m cp dp →
      I (m.addCollection c) cp dp)
    (hupd : ∀ opts m cp dp, I m cp dp → I (m.updateCollection backupInfo.id collectionId opts) cp dp) :
    Triple (World.Holds I) (backupCollectionPrepare ctx backupInfo collection force)
      (fun r w => r ≠ none → w.Holds I) s := by
  unfold backupCollectionPrepare
  simp only [pure_bind]
  refine .call_bind fun t c => ?_
  have hcc := hid t c
  generalize s.env.describeCollection t c collection.db collection.collectionName = r at hcc ⊢
  obtain ⟨cc, _ | e⟩ := r
  swap
  · exact .pure fun _ h _ => h
  obtain rfl : cc.id = collectionId := hcc rfl
  refine .bind (Keeps.triple (describeIndexesLoop_keeps _ _ _ _)) fun _ => ?_
  split
  · exact .pure fun _ h _ => h
  refine .bind (Keeps.triple (.call _ _)) fun _ =>
    .bind (Keeps.triple (.modifyMeta fun _ _ _ => hcoll _ _ _ _ rfl rfl)) fun _ => ?_
  refine .bind (Keeps.triple (.call _ _)) fun _ => ?_
  split
  · exact .pure fun _ h _ => h
  refine .bind (Keeps.triple (.call _ _)) fun _ => ?_
  split
  · exact .pure fun _ h _ => h
  refine .bind (Keeps.triple (loadStates_keeps _ _ _ _ _)) fun _ => ?_
  split
  · exact .pure fun _ h _ => h
  refine .bind (Keeps.triple (unfilledSegments_keeps _ _ _ (hupd ·))) fun _ => ?_
  split
  · exact .pure fun _ h _ => h
  refine (Triple.of_ensures (.bind (.triv _) fun _ _ => .bind (.triv _) fun _ _ =>
    .bind (.triv _) fun _ _ => .bind (.triv _) fun _ _ => .pure rfl)).mono (fun _ h => h)
    fun _ _ h hne => (hne h.symm).elim

/-- What a failed prepare wrote, its next successful attempt overwrites. -/
theorem backupCollectionPrepare_failed_sameBut (hid : s.env.KeepsCollectionId collection collectionId)
    (w : World) (hr : (backupCollectionPrepare ctx backupInfo collection force s w).1 ≠ none) :
    (backupCollectionPrepare ctx backupInfo collection force s w).2.meta.SameBut backupInfo.id
      collectionId w.meta :=
  (backupCollectionPrepare_failed_keeps hid (fun _ _ _ _ hid' hcid' h => h.addCollection hid' hcid')
    (fun _ _ _ _ h => h.updateCollection _) :
    Triple (World.Holds fun m _ _ => m.SameBut backupInfo.id collectionId w.meta) _ _ s)
    w .refl hr

end Failed

/-! ### Two runs -/

/-- Run from two worlds related by `R`, `x` returns the same value in both and ends in worlds
related by `S` of that value. -/
def Agrees {α : Type} (R : World → World → Prop) (x : BackupM α)
    (S : α → World → World → Prop) (s : Setting) : Prop :=
  ∀ w w', R w w' → (x s w).1 = (x s w').1 ∧ S (x s w).1 (x s w).2 (x s w').2

/-- `w'` is `w` with another MetaManager, the same but for the collection record
`(id, collectionId)`. -/
def World.SameBut (id : String) (collectionId : Int) (w w' : World) : Prop :=
  ∃ m', w' = w.setMeta (fun _ => m') ∧ w.meta.SameBut id collectionId m'

namespace Agrees

variable {α β : Type} {R : World → World → Prop} {S S' : α → World → World → Prop} {s : Setting}

theorem mono {x : BackupM α} (h : Agrees R x S s) (hS : ∀ a w w', S a w w' → S' a w w') :
    Agrees R x S' s :=
  fun w w' hw => (h w w' hw).imp_right (hS _ _ _)

theorem pure {a : α} (h : ∀ w w', R w w' → S a w w') : Agrees R (Pure.pure a : BackupM α) S s :=
  fun w w' hw => ⟨rfl, h w w' hw⟩

theorem bind {T : β → World → World → Prop} {x : BackupM α} {f : α → BackupM β}
    (hx : Agrees R x S s) (hf : ∀ a, Agrees (S a) (f a) T s) : Agrees R (x >>= f) T s :=
  fun w w' hw => by
    obtain ⟨h₁, h₂⟩ := hx w w' hw
    simp only [bind_apply, ← h₁]
    exact hf _ _ _ h₂

/-- Run from one world twice, a computation does the same. -/
theorem eq (x : BackupM α) : Agrees (· = ·) x (fun _ => (· = ·)) s := by
  rintro w _ rfl
  exact ⟨rfl, rfl⟩

variable {id : String} {collectionId : Int}

theorem tick_sameBut {w w' : World} (h : w.SameBut id collectionId w') :
    w.tick.SameBut id collectionId w'.tick := by
  obtain ⟨m', rfl, h⟩ := h
  exact ⟨m', rfl, h⟩

/-- An external call answers the same in two worlds the same but for a collection record. -/
theorem call {ctx : Ctx} {answer : Env → Nat → Bool → α} :
    Agrees (World.SameBut id collectionId) (BackupM.call ctx answer)
      (fun _ => World.SameBut id collectionId) s := by
  rintro w _ ⟨m', rfl, h⟩
  exact ⟨rfl, tick_sameBut ⟨m', rfl, h⟩⟩

/-- A call followed by a step: the step runs on what the behaviour answers at some tick. -/
theorem call_bind {ctx : Ctx} {answer : Env → Nat → Bool → α} {f : α → BackupM β}
    {T : β → World → World → Prop}
    (hf : ∀ t cancelled, Agrees (World.SameBut id collectionId) (f (answer s.env t cancelled)) T s) :
    Agrees (World.SameBut id collectionId) (BackupM.call ctx answer >>= f) T s := by
  rintro w _ ⟨m', rfl, h⟩
  exact hf w.clock _ w.tick _ (tick_sameBut ⟨m', rfl, h⟩)

/-- Adding the collection record makes the two worlds the same. -/
theorem addCollection {c : CollectionBackupInfo} (hid : c.id = id)
    (hcid : c.collectionId = collectionId) :
    Agrees (World.SameBut id collectionId) (modifyMeta (·.addCollection c)) (fun _ => (· = ·)) s := by
  rintro ⟨m, c', l, cp, dp⟩ _ ⟨m', rfl, h⟩
  exact ⟨rfl, by simp [World.setMeta, h c hid hcid]⟩

end Agrees

section Retried

variable {ctx : Ctx} {backupInfo : BackupInfo} {collection : CollectionStruct} {force : Bool}
  {collectionId : Int} {s : Setting}

theorem describeIndexesLoop_agrees (db collectionName : String) :
    ∀ (fields : List EntityField) (indexInfos : List IndexInfo),
    Agrees (World.SameBut backupInfo.id collectionId) (describeIndexesLoop db collectionName fields indexInfos)
      (fun _ => World.SameBut backupInfo.id collectionId) s
  | [], _ => .pure fun _ _ h => h
  | _ :: rest, _ => .bind .call fun ⟨_, _⟩ => by
    dsimp only
    split
    · split
      · exact describeIndexesLoop_agrees db collectionName rest _
      · exact .pure fun _ _ h => h
    · exact describeIndexesLoop_agrees db collectionName rest _

/-- **Prepare does not read what it overwrites**: run from two worlds the same but for the
collection record it adds, prepare answers the same, and when it succeeds it ends in the same
world. -/
theorem backupCollectionPrepare_agrees (hid : s.env.KeepsCollectionId collection collectionId) :
    Agrees (World.SameBut backupInfo.id collectionId)
      (backupCollectionPrepare ctx backupInfo collection force) (fun r w w' => r = none → w = w') s := by
  unfold backupCollectionPrepare
  simp only [pure_bind]
  refine .call_bind fun t c => ?_
  have hcc := hid t c
  generalize s.env.describeCollection t c collection.db collection.collectionName = r at hcc ⊢
  obtain ⟨cc, _ | e⟩ := r
  swap
  · exact .pure fun _ _ _ h => nomatch h
  refine .bind (describeIndexesLoop_agrees _ _ _ _) fun _ => ?_
  split
  · exact .pure fun _ _ _ h => nomatch h
  exact .bind .call fun _ => .bind (.addCollection rfl (hcc rfl)) fun _ =>
    (Agrees.eq _).mono fun _ _ _ h _ => h

/-- A retry of prepare that succeeds ends as its last attempt, made from the world the retry
started in. -/
theorem retryDo_backupCollectionPrepare (hid : s.env.KeepsCollectionId collection collectionId)
    (retryCtx : Ctx) (n : Nat) (w : World)
    (hok : (retryDo retryCtx (backupCollectionPrepare ctx backupInfo collection force) (n + 1) s w).1 =
      none) :
    ∃ t : Nat, retryDo retryCtx (backupCollectionPrepare ctx backupInfo collection force) (n + 1) s w =
      backupCollectionPrepare ctx backupInfo collection force s { w with clock := t } := by
  induction n generalizing w with
  | zero =>
    rcases retryDo_succ_of_none hok with ⟨-, heq⟩ | ⟨n', hn, -⟩
    · exact ⟨w.clock, heq⟩
    · omega
  | succ n ih =>
    rcases retryDo_succ_of_none hok with ⟨-, heq⟩ | ⟨n', hn, hfail, heq⟩
    · exact ⟨w.clock, heq⟩
    obtain rfl : n = n' := by omega
    rw [heq] at hok ⊢
    obtain ⟨t, heq'⟩ := ih _ hok
    obtain ⟨hlog, hcp, hdp⟩ := backupCollectionPrepare_frame ctx backupInfo collection force s w
    have hsame : World.SameBut backupInfo.id collectionId
        { (backupCollectionPrepare ctx backupInfo collection force s w).2 with clock := t }
        { w with clock := t } :=
      ⟨w.meta, by simp [World.setMeta, hlog, hcp, hdp],
        backupCollectionPrepare_failed_sameBut hid w hfail⟩
    obtain ⟨h₁, h₂⟩ := backupCollectionPrepare_agrees hid _ _ hsame
    exact ⟨t, heq'.trans (Prod.ext h₁ (h₂ (heq' ▸ hok)))⟩

end Retried

/-- **A retried prepare leaves what one attempt leaves**: a prepare job that succeeds, after
any number of failed attempts, ends in the very world a single attempt ends in, made from the
job's own world at a later tick. What the failed attempts wrote – the collection record and the
checkpoints of a flush – the successful attempt's `AddCollection` overwrites whole. This needs
Milvus to give the collection one id throughout: a collection dropped and created again under
its name between two attempts would leave the record of its old id behind. -/
theorem runCollectionJob_prepare_retried (backupInfo : BackupInfo) (collection : CollectionStruct)
    (force : Bool) {collectionId : Int} {s : Setting}
    (hid : s.env.KeepsCollectionId collection collectionId) (w : World)
    (hok : (runCollectionJob (.prepare backupInfo collection force) s w).1 = none) :
    ∃ t : Nat, runCollectionJob (.prepare backupInfo collection force) s w =
      backupCollectionPrepare .engine backupInfo collection force s { w with clock := t } :=
  retryDo_backupCollectionPrepare hid .engine 127 w hok

/-- `oneSegmentEnv`, where the segment listing after the flush of the first attempt fails: that
attempt has added its collection record and recorded the flush's checkpoints. -/
def flakySegmentEnv : Env :=
  { oneSegmentEnv with
    getPersistentSegmentInfo := fun t _ _ _ =>
      ([{ id := 7, collectionID := 12, parititionID := 2, numRows := 5 }],
        if t = 6 then some "segment info unavailable" else none) }

/-- The prepare job of collection `coll` on `flakySegmentEnv`: its first attempt fails, and the
job succeeds as one attempt would. -/
theorem runCollectionJob_prepare_retried_flaky :
    (backupCollectionPrepare .engine dailyTask ⟨"default", "coll"⟩ false
      ⟨dailyConfig, flakySegmentEnv, none⟩ dailyWorld).1 ≠ none ∧
    ∃ t : Nat, runCollectionJob (.prepare dailyTask ⟨"default", "coll"⟩ false)
      ⟨dailyConfig, flakySegmentEnv, none⟩ dailyWorld =
      backupCollectionPrepare .engine dailyTask ⟨"default", "coll"⟩ false
        ⟨dailyConfig, flakySegmentEnv, none⟩ { dailyWorld with clock := t } :=
  ⟨by decide, runCollectionJob_prepare_retried _ _ _ (fun _ _ _ => rfl) _ (by decide)⟩

end MilvusBackup
