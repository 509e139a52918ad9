import MeshWeaver.Lib.Directory
import MeshWeaver.Lib.Files
import MeshWeaver.Lib.Reread

/-!
# Snapshots on disk

`SnapshotDiskStore`: a snapshot is written to a temporary file, which then takes the place of the file for its
index and term; older files are removed. The names are sorted as texts, and so are the files that are kept and
the one that is loaded.

A file holds what `json.dump` wrote; `none` is a file that is not complete. SHA-256 is a function from texts to
texts. The path of the directory has no `*`, `?` or `[`, which `glob` would read as patterns.
-/

namespace MeshWeaver

open Lib Directory
open Lib.Json (FloatFormat)
open Lib.Files (padded)

structure Envelope where
  lastIndex : Nat
  lastTerm : Nat
  createdAt : Rat
  data : PyData

structure SnapshotFile where
  checksumSha256 : Text
  envelope : Envelope

/-- `f"snapshot_{last_index:08d}_{last_term:04d}.snap"` -/
def snapshotName (pair : Nat × Nat) : Text :=
  "snapshot_".toList ++ (padded 8 pair.1 ++ '_' :: (padded 4 pair.2 ++ ".snap".toList))

/-- Whether a name matches `snapshot_*.snap`. -/
def isSnapshot (name : Text) : Bool :=
  "snapshot_".toList.isPrefixOf name && ".snap".toList.isSuffixOf name && 14 ≤ name.length

namespace Envelope

variable (fmt : FloatFormat Rat) (sha256 : Text → Text) (envelope : Envelope)

def pair : Nat × Nat := (envelope.lastIndex, envelope.lastTerm)

def rawJson : Text :=
  Json.printIndented fmt 0 (.obj [
    ("last_index", .int envelope.lastIndex), ("last_term", .int envelope.lastTerm),
    ("created_at", .float envelope.createdAt), ("data", envelope.data.json fmt)])

/-- The envelope as `json.load` reads it. -/
def reread : Envelope := { envelope with data := envelope.data.reread fmt }

def file : SnapshotFile := ⟨sha256 (envelope.rawJson fmt), envelope⟩

end Envelope

/-- What `load_latest_snapshot` returns for a file, unless it skips it: the data, the index and the term. -/
def SnapshotFile.read? (fmt : FloatFormat Rat) (sha256 : Text → Text) (file : SnapshotFile) :
    Option (PyData × Nat × Nat) :=
  let envelope := file.envelope.reread fmt
  if file.checksumSha256 ≠ [] ∧ file.checksumSha256 ≠ sha256 (envelope.rawJson fmt) then none
  else some (envelope.data, envelope.lastIndex, envelope.lastTerm)

namespace SnapshotDiskStore

/-- `sorted(glob.glob("snapshot_*.snap"), reverse=True)`, with what is in the files -/
def files (directory : Directory (Option SnapshotFile)) : List (Text × Option SnapshotFile) :=
  listing isSnapshot directory

/-- `files[keep:]` of `cleanup_old_snapshots(keep)`, if it comes to that -/
def staleFiles {α : Type} (keep : Int) (files : List α) : List α :=
  if keep < files.length then
    files.drop (if 0 ≤ keep then keep.toNat else (files.length + keep).toNat)
  else []

variable (fmt : FloatFormat Rat) (sha256 : Text → Text)

/-- The name of the temporary file; `stamp` are the milliseconds of the clock. -/
def tempName (pair : Nat × Nat) (stamp : Nat) : Text :=
  snapshotName pair ++ (".tmp.".toList ++ Nat.toDigits 10 stamp)

def tempSteps (stamp : Nat) (envelope : Envelope) : List (FileStep (Option SnapshotFile)) :=
  let temp := tempName envelope.pair stamp
  [.write temp none, .write temp (some (envelope.file fmt sha256)), .fsync temp]

/-- `if os.path.exists(target_path): os.remove(target_path)` -/
def removeSteps (target : Text) (directory : Directory (Option SnapshotFile)) :
    List (FileStep (Option SnapshotFile)) :=
  if (directory.get? target).isSome then [.remove target] else []

def writeSteps (stamp : Nat) (envelope : Envelope) (directory : Directory (Option SnapshotFile)) :
    List (FileStep (Option SnapshotFile)) :=
  let target := snapshotName envelope.pair
  let steps := tempSteps fmt sha256 stamp envelope
  steps ++ (removeSteps target (FileStep.run directory steps) ++
    [.rename (tempName envelope.pair stamp) target])

def saveSteps (keep : Int) (stamp : Nat) (envelope : Envelope) (directory : Directory (Option SnapshotFile)) :
    List (FileStep (Option SnapshotFile)) :=
  let steps := writeSteps fmt sha256 stamp envelope directory
  steps ++ (staleFiles keep (files (FileStep.run directory steps))).map fun file => .remove file.1

/-- `save_snapshot(data, last_index, last_term)`, for a store that retains `keep` snapshots -/
def saveSnapshot (keep : Int) (stamp : Nat) (envelope : Envelope)
    (directory : Directory (Option SnapshotFile)) : Directory (Option SnapshotFile) :=
  FileStep.run directory (saveSteps fmt sha256 keep stamp envelope directory)

def firstReadable (files : List (Text × Option SnapshotFile)) : Option (PyData × Nat × Nat) :=
  files.findSome? fun file => file.2.bind (SnapshotFile.read? fmt sha256)

def loadLatestSnapshot (directory : Directory (Option SnapshotFile)) : Option (PyData × Nat × Nat) :=
  firstReadable fmt sha256 (files directory)

/-! ### Names -/

theorem snapshotName_eq (pair : Nat × Nat) :
    snapshotName pair = "snapshot_".toList ++ (padded 8 pair.1 ++ '_' :: (padded 4 pair.2 ++ ".snap".toList)) := rfl

theorem isSnapshot_snapshotName (pair : Nat × Nat) : isSnapshot (snapshotName pair) = true := by
  have hstart : "snapshot_".toList <+: snapshotName pair := List.prefix_append _ _
  have hend : ".snap".toList <:+ snapshotName pair :=
    ⟨"snapshot_".toList ++ (padded 8 pair.1 ++ '_' :: padded 4 pair.2), by
      simp only [snapshotName_eq, List.append_assoc, List.cons_append]⟩
  have hlength : 14 ≤ (snapshotName pair).length := by
    have hstart : ("snapshot_".toList).length = 9 := by decide
    have hend : (".snap".toList).length = 5 := by decide
    simp only [snapshotName_eq, List.length_append, List.length_cons, hstart, hend]
    omega
  rw [isSnapshot, List.isPrefixOf_iff_prefix.mpr hstart, List.isSuffixOf_iff_suffix.mpr hend,
    decide_eq_true hlength]
  rfl

theorem isSnapshot_tempName (pair : Nat × Nat) (stamp : Nat) : isSnapshot (tempName pair stamp) = false := by
  have hend : ¬ ".snap".toList <:+ tempName pair stamp := by
    intro hsuffix
    obtain ⟨digits, d, hdigits⟩ :=
      (List.eq_nil_or_concat' (Nat.toDigits 10 stamp)).resolve_left Nat.toDigits_ne_nil
    have hd : d.isDigit = true :=
      Nat.isDigit_of_mem_toDigits (by decide) (by decide) (hdigits ▸ List.mem_append_right _ List.mem_cons_self)
    obtain ⟨start, hstart⟩ := hsuffix
    have hlast := congrArg List.getLast? hstart
    rw [tempName, hdigits, ← List.append_assoc, ← List.append_assoc, List.getLast?_concat,
      List.getLast?_append] at hlast
    have hp : d = 'p' := (Option.some_inj.mp hlast).symm
    subst hp
    cases hd
  rw [isSnapshot, Bool.and_eq_false_iff, Bool.and_eq_false_iff]
  exact Or.inl (Or.inr (Bool.eq_false_iff.mpr fun h => hend (List.isSuffixOf_iff_suffix.mp h)))

theorem snapshotName_injective : Function.Injective snapshotName := by
  rintro ⟨index, term⟩ ⟨index', term'⟩ heq
  obtain ⟨hindex, hrest⟩ := Files.padded_append_inj (by decide) (List.append_cancel_left heq)
  exact Prod.ext hindex (Files.padded_injective 4 (List.append_cancel_right hrest))

/-! ### Retention -/

def kept (keep : Int) (n : Nat) : Nat :=
  if keep < n then if 0 ≤ keep then keep.toNat else (n + keep).toNat else n

theorem staleFiles_eq {α : Type} (keep : Int) (files : List α) :
    staleFiles keep files = files.drop (kept keep files.length) := by
  rw [staleFiles, kept]
  split_ifs
  · rfl
  · rfl
  · rw [List.drop_length]

theorem take_kept {α : Type} {keep : Int} (hkeep : 1 ≤ keep) (files : List α) :
    files.take (kept keep files.length) = files.take keep.toNat := by
  have hnonneg : 0 ≤ keep := by omega
  rw [kept]
  split_ifs with hlt
  · rfl
  · rw [List.take_length, List.take_of_length_le (by omega)]

/-- The first `m` files, and the others without the next `j`. -/
def pruned {α : Type} (m j : Nat) (files : List α) : List α := files.take m ++ files.drop (m + j)

/-! ### What a call does to the files -/

section
variable (stamp : Nat) (envelope : Envelope) (directory : Directory (Option SnapshotFile))

theorem files_write_temp (pair : Nat × Nat) (content : Option SnapshotFile) :
    files (directory.insert (tempName pair stamp) content) = files directory :=
  listing_write_unlisted (isSnapshot_tempName pair stamp) content

theorem files_take_tempSteps (k : Nat) :
    files (FileStep.run directory ((tempSteps fmt sha256 stamp envelope).take k)) = files directory := by
  rcases k with _ | _ | k
  · rfl
  · exact files_write_temp stamp directory envelope.pair none
  · have hwrite := (files_write_temp stamp _ envelope.pair (some (envelope.file fmt sha256))).trans
      (files_write_temp stamp directory envelope.pair none)
    rcases k with _ | k
    · exact hwrite
    · rwa [List.take_of_length_le (Nat.le_add_left 3 k)]

theorem files_removeSteps (target : Text) :
    files (FileStep.run directory (removeSteps target directory)) =
      (files directory).filter fun file => file.1 ≠ target := by
  rw [removeSteps]
  split_ifs with hexists
  · exact listing_remove target
  · refine (List.filter_eq_self.mpr fun file hfile => decide_eq_true ?_).symm
    rintro rfl
    have hget := ((mem_listing file).mp hfile).1
    exact hexists (hget ▸ rfl)

theorem get?_removeSteps {name target : Text} (hne : name ≠ target) :
    (FileStep.run directory (removeSteps target directory)).get? name = directory.get? name := by
  rw [removeSteps]
  split_ifs
  · exact (Dict.get?_erase _ _ _).trans (if_neg hne)
  · rfl

theorem tempName_ne (pair : Nat × Nat) : tempName pair stamp ≠ snapshotName pair := by
  intro heq
  have htemp := isSnapshot_tempName pair stamp
  rw [heq, isSnapshot_snapshotName] at htemp
  cases htemp

/-- The snapshot files that a save does not replace. -/
abbrev otherFiles : List (Text × Option SnapshotFile) :=
  (files directory).filter fun file => file.1 ≠ snapshotName envelope.pair

theorem files_temp_remove :
    files (FileStep.run directory (tempSteps fmt sha256 stamp envelope ++
        removeSteps (snapshotName envelope.pair)
          (FileStep.run directory (tempSteps fmt sha256 stamp envelope)))) = otherFiles envelope directory := by
  rw [FileStep.run_append, files_removeSteps]
  exact congrArg _ (files_take_tempSteps fmt sha256 stamp envelope directory 3)

def putFile (files : List (Text × Option SnapshotFile)) : List (Text × Option SnapshotFile) :=
  Directory.put (snapshotName envelope.pair) (some (envelope.file fmt sha256)) files

theorem files_writeSteps :
    files (FileStep.run directory (writeSteps fmt sha256 stamp envelope directory)) =
      putFile fmt sha256 envelope (files directory) := by
  have htemp : (FileStep.run directory (tempSteps fmt sha256 stamp envelope ++
      removeSteps (snapshotName envelope.pair)
        (FileStep.run directory (tempSteps fmt sha256 stamp envelope)))).get? (tempName envelope.pair stamp) =
      some (some (envelope.file fmt sha256)) := by
    rw [FileStep.run_append, get?_removeSteps _ (tempName_ne stamp _)]
    exact Dict.get?_insert_self ..
  rw [writeSteps, ← List.append_assoc, FileStep.run_append]
  refine (listing_rename (isSnapshot_tempName _ _) (isSnapshot_snapshotName _) htemp).trans ?_
  exact (congrArg _ (files_temp_remove fmt sha256 stamp envelope directory)).trans
    ((descending_listing directory).put_filter _ _)

theorem files_take_prune (keep : Int) (j : Nat) :
    files (FileStep.run directory
        (((staleFiles keep (files directory)).map fun file => FileStep.remove file.1).take j)) =
      pruned (kept keep (files directory).length) j (files directory) := by
  rw [staleFiles_eq, ← List.map_take]
  have hremoves := listing_removes isSnapshot directory
    ((((files directory).drop (kept keep (files directory).length)).take j).map Prod.fst)
  rw [List.map_map] at hremoves
  exact hremoves.trans ((descending_listing directory).filter_notMem _ j)

theorem files_take_saveSteps (keep : Int) (j : Nat) :
    files (FileStep.run directory ((saveSteps fmt sha256 keep stamp envelope directory).take
        ((writeSteps fmt sha256 stamp envelope directory).length + j))) =
      let all := putFile fmt sha256 envelope (files directory)
      pruned (kept keep all.length) j all := by
  rw [saveSteps, List.take_length_add_append, FileStep.run_append, files_take_prune, files_writeSteps]

theorem files_saveSnapshot (keep : Int) :
    files (saveSnapshot fmt sha256 keep stamp envelope directory) =
      let all := putFile fmt sha256 envelope (files directory)
      all.take (kept keep all.length) := by
  have htake := files_take_saveSteps fmt sha256 stamp envelope directory keep
    (putFile fmt sha256 envelope (files directory)).length
  dsimp only at htake
  rw [pruned, List.drop_eq_nil_of_le (Nat.le_add_left _ _), List.append_nil, List.take_of_length_le] at htake
  · exact htake
  · rw [saveSteps, List.length_append, List.length_map, staleFiles_eq, List.length_drop, files_writeSteps]
    omega

end

end SnapshotDiskStore

/-! ### Reading a file -/

section
variable {fmt : FloatFormat Rat} {sha256 : Text → Text} {envelope : Envelope}

/-- The text of what is read back has another checksum. -/
def Envelope.Garbled (fmt : FloatFormat Rat) (sha256 : Text → Text) (envelope : Envelope) : Prop :=
  sha256 (envelope.rawJson fmt) ≠ [] ∧
    sha256 (envelope.rawJson fmt) ≠ sha256 ((envelope.reread fmt).rawJson fmt)
deriving Decidable

theorem SnapshotFile.read?_file :
    (envelope.file fmt sha256).read? fmt sha256 =
      if envelope.Garbled fmt sha256 then none else some (envelope.data.reread fmt, envelope.pair) := rfl

theorem SnapshotFile.read?_file_eq_none_iff :
    (envelope.file fmt sha256).read? fmt sha256 = none ↔ envelope.Garbled fmt sha256 := by
  rw [read?_file]
  split_ifs with hgarbled
  · exact iff_of_true rfl hgarbled
  · exact iff_of_false nofun hgarbled

theorem SnapshotFile.snd_of_read? {file : SnapshotFile} {r : PyData × Nat × Nat}
    (h : file.read? fmt sha256 = some r) : r.2 = file.envelope.pair := by
  rw [SnapshotFile.read?] at h
  split_ifs at h
  obtain rfl := Option.some_inj.mp h
  rfl

theorem Envelope.not_garbled (h : envelope.data.All (PyData.Unambiguous fmt)) : ¬ envelope.Garbled fmt sha256 := by
  have hraw : (envelope.reread fmt).rawJson fmt = envelope.rawJson fmt := by
    rw [rawJson, rawJson, reread, PyData.reread, PyData.collapse_json _ h, PyData.json_ofJson]
  exact fun hgarbled => hgarbled.2 (by rw [hraw])

theorem SnapshotFile.read?_file_eq_iff (hdistinct : envelope.data.All PyData.Distinct) :
    (envelope.file fmt sha256).read? fmt sha256 = some (envelope.data, envelope.pair) ↔
      envelope.data.All PyData.Plain := by
  constructor
  · intro h
    rw [read?_file] at h
    split_ifs at h
    exact (PyData.reread_eq_self_iff hdistinct).mp (congrArg Prod.fst (Option.some_inj.mp h))
  · intro hplain
    rw [read?_file, if_neg (Envelope.not_garbled (hplain.unambiguous hdistinct)),
      (PyData.reread_eq_self_iff hdistinct).mpr hplain]

end

end MeshWeaver
