import Mathlib.Data.List.Nodup
import Cllama.Core.RunnerMgr

/-!
# The models that are listed

`list_models` names the files of a directory by their stems, and `resolve_path` makes a path
of a name again.  It does not add an extension to a name that seems to have one, which the
name of a listed file may.
-/

namespace Cllama.Core.RunnerMgr

open Cllama.Library

/-! ## Paths -/

/-- `path::filename` -/
def filename (path : Bytes) : Bytes :=
  (path.reverse.takeWhile (· ≠ 0x2F)).reverse

/-- A file name up to its last dot. -/
def beforeDot (filename : Bytes) : Bytes :=
  (filename.reverse.dropWhile (· ≠ 0x2E)).tail.reverse

/-- `path::extension`, with its dot. -/
def extension (path : Bytes) : Bytes :=
  let filename := filename path
  let base := beforeDot filename
  if base = [] ∨ filename = bytes ".." then [] else filename.drop base.length

/-- `operator/` of a directory and a name in it. -/
def joinPath (directory name : Bytes) : Bytes :=
  if directory ≠ [] ∧ directory.getLast? ≠ some 0x2F then directory ++ [0x2F] ++ name
  else directory ++ name

theorem stem_eq (path : Bytes) :
    stem path = if beforeDot (filename path) = [] ∨ filename path = bytes ".." then filename path
      else beforeDot (filename path) :=
  rfl

/-! ## Listing -/

structure ModelInfo where
  name : Bytes
  modelPath : Bytes
  family : Bytes
  size : Bytes
  fileFormat : Bytes
  parameterSize : Bytes := []
  quantization : Bytes := []
  description : Bytes := []
  maxEmbeddingLength : Nat

/-- An entry of a directory; no name has a slash in it. -/
structure DirectoryEntry where
  name : Bytes
  isRegularFile : Bool
  fileSize : Nat
  nonempty : name ≠ []
  noSlash : (0x2F : UInt8) ∉ name

/-- A directory, whose entries have different names. -/
structure Directory where
  entries : List DirectoryEntry
  distinct : (entries.map DirectoryEntry.name).Nodup

/-- What an entry of the models directory is listed as. -/
def modelInfo (manager : RunnerManager) (entry : DirectoryEntry) : Option ModelInfo :=
  let path := joinPath manager.modelsPath entry.name
  if entry.isRegularFile = true ∧ extension path = bytes ".gguf" then
    some
      { name := stem path
        modelPath := path
        family := bytes "llama"
        size := bytes (toString entry.fileSize)
        fileFormat := bytes "gguf"
        maxEmbeddingLength := 8192 }
  else none

/-- The models in the directory, unless there is none. -/
def listModels (manager : RunnerManager) (directory : Option Directory) : List ModelInfo :=
  match directory with
  | none => []
  | some directory => directory.entries.filterMap (modelInfo manager)

/-- Every listed name resolves to the path it is listed with, and no two files have one
name. -/
structure Startable (manager : RunnerManager) (directory : Directory) : Prop where
  resolves : ∀ info ∈ listModels manager (some directory),
    resolvePath manager info.name = info.modelPath
  distinct : ((listModels manager (some directory)).map ModelInfo.name).Nodup

/-! ## Names and their extensions -/

theorem hasSuffix_iff {s suf : Bytes} : hasSuffix s suf = true ↔ suf <:+ s := by
  rw [hasSuffix, Bool.and_eq_true, decide_eq_true_eq, decide_eq_true_eq]
  constructor
  · intro both
    exact both.2 ▸ List.drop_suffix _ s
  · intro isSuffix
    exact ⟨isSuffix.length_le, (List.suffix_iff_eq_drop.mp isSuffix).symm⟩

/-- The directory of the models, with a slash in the end. -/
theorem exists_parent {directory : Bytes} (nonempty : directory ≠ []) :
    ∃ parent, ∀ name, joinPath directory name = parent ++ 0x2F :: name := by
  by_cases closed : directory.getLast? = some 0x2F
  · rcases List.getLast?_eq_some_iff.mp closed with ⟨parent, rfl⟩
    refine ⟨parent, fun name => ?_⟩
    rw [joinPath, if_neg fun both => both.2 closed, List.append_assoc]
    rfl
  · refine ⟨directory, fun name => ?_⟩
    rw [joinPath, if_pos ⟨nonempty, closed⟩, List.append_assoc]
    rfl

theorem filename_append {parent name : Bytes} (noSlash : (0x2F : UInt8) ∉ name) :
    filename (parent ++ 0x2F :: name) = name := by
  have absent : (0x2F : UInt8) ∉ name.reverse := fun isMember =>
    noSlash (List.mem_reverse.mp isMember)
  rw [filename, List.reverse_append, List.reverse_cons, List.append_assoc, List.singleton_append,
    takeWhile_ne_append absent, List.reverse_reverse]

theorem beforeDot_isInitial (name : Bytes) : beforeDot name <+: name := by
  rw [beforeDot, ← List.reverse_suffix, List.reverse_reverse]
  exact (List.tail_suffix _).trans (List.dropWhile_suffix _)

theorem beforeDot_append (base : Bytes) : beforeDot (base ++ bytes ".gguf") = base := by
  have reversed : (base ++ bytes ".gguf").reverse = bytes "fugg" ++ 0x2E :: base.reverse := by
    rw [List.reverse_append]
    rfl
  have dropped : (bytes "fugg" ++ 0x2E :: base.reverse).dropWhile (· ≠ 0x2E) =
      0x2E :: base.reverse := by
    rw [List.dropWhile_append_of_pos (List.all_eq_true.mp rfl),
      List.dropWhile_cons_of_neg (by decide)]
  rw [beforeDot, reversed, dropped, List.tail_cons, List.reverse_reverse]

/-- A name in front of an extension is no `..`. -/
theorem append_ne_dots (base : Bytes) : base ++ bytes ".gguf" ≠ bytes ".." := by
  intro same
  have lengths := congrArg List.length same
  rw [List.length_append] at lengths
  change base.length + 5 = 2 at lengths
  omega

/-- The names with the extension are those with something in front of it. -/
theorem extension_eq_iff {parent name : Bytes} (noSlash : (0x2F : UInt8) ∉ name) :
    extension (parent ++ 0x2F :: name) = bytes ".gguf" ↔
      ∃ base, base ≠ [] ∧ name = base ++ bytes ".gguf" := by
  rw [extension, filename_append noSlash]
  constructor
  · intro hasExtension
    split at hasExtension
    · cases hasExtension
    next named =>
      refine ⟨beforeDot name, fun empty => named (Or.inl empty), ?_⟩
      rw [← hasExtension, List.prefix_iff_eq_append.mp (beforeDot_isInitial name)]
  · rintro ⟨base, nonempty, rfl⟩
    rw [beforeDot_append, if_neg (not_or.mpr ⟨nonempty, append_ne_dots base⟩), List.drop_left]

theorem stem_append {parent base : Bytes} (nonempty : base ≠ [])
    (noSlash : (0x2F : UInt8) ∉ base ++ bytes ".gguf") :
    stem (parent ++ 0x2F :: (base ++ bytes ".gguf")) = base := by
  rw [stem_eq, filename_append noSlash, beforeDot_append,
    if_neg (not_or.mpr ⟨nonempty, append_ne_dots base⟩)]

/-! ## Resolving what is listed -/

/-- What lies behind a slash decides about a suffix without one. -/
theorem suffix_behind_slash {suf parent name : Bytes} (noSlash : (0x2F : UInt8) ∉ suf) :
    suf <:+ parent ++ 0x2F :: name ↔ suf <:+ name := by
  constructor
  · intro isSuffix
    rcases List.suffix_or_suffix_of_suffix isSuffix (List.suffix_append parent (0x2F :: name)) with
      shorter | longer
    · rcases List.suffix_cons_iff.mp shorter with same | behind
      · exact absurd (same ▸ List.mem_cons_self) noSlash
      · exact behind
    · exact absurd (longer.subset List.mem_cons_self) noSlash
  · intro isSuffix
    exact (isSuffix.trans (List.suffix_cons _ _)).trans (List.suffix_append _ _)

/-- A name resolves to the file with the extension, unless it seems to have one. -/
theorem resolvePath_base {manager : RunnerManager} (nonempty : manager.modelsPath ≠ [])
    {base : Bytes} (noSlash : (0x2F : UInt8) ∉ base) :
    resolvePath manager base =
      if bytes ".gguf" <:+ base then joinPath manager.modelsPath base
      else joinPath manager.modelsPath (base ++ bytes ".gguf") := by
  have relative : ¬(hasSuffix base (bytes ".gguf") ∧ base.head? = some 0x2F) :=
    fun both => noSlash (List.mem_of_head? both.2)
  have joined : (if manager.modelsPath ≠ [] ∧ manager.modelsPath.getLast? ≠ some 0x2F then
      manager.modelsPath ++ [0x2F] else manager.modelsPath) ++ base =
        joinPath manager.modelsPath base := by
    rw [joinPath]
    split <;> rfl
  rcases exists_parent nonempty with ⟨parent, isParent⟩
  rw [resolvePath, if_neg relative]
  dsimp only
  rw [joined, isParent, isParent]
  have suffix_iff : hasSuffix (parent ++ 0x2F :: base) (bytes ".gguf") = true ↔
      bytes ".gguf" <:+ base := by
    rw [hasSuffix_iff, suffix_behind_slash (by decide)]
  by_cases extended : bytes ".gguf" <:+ base
  · rw [if_pos (suffix_iff.mpr extended), if_pos extended]
  · rw [if_neg fun isSuffix => extended (suffix_iff.mp isSuffix), if_neg extended,
      List.append_assoc]
    rfl

/-- A file that is listed, by the name it is listed under. -/
theorem modelInfo_eq_some {manager : RunnerManager} (nonempty : manager.modelsPath ≠ [])
    {entry : DirectoryEntry} {info : ModelInfo} (listed : modelInfo manager entry = some info) :
    entry.isRegularFile = true ∧ entry.name = info.name ++ bytes ".gguf" ∧
      info.modelPath = joinPath manager.modelsPath entry.name := by
  rcases exists_parent nonempty with ⟨parent, isParent⟩
  rw [modelInfo] at listed
  split at listed
  next accepted =>
    cases listed
    rw [isParent, extension_eq_iff entry.noSlash] at accepted
    rcases accepted with ⟨regular, base, named, same⟩
    refine ⟨regular, ?_, rfl⟩
    dsimp only
    rw [isParent, same, stem_append named (same ▸ entry.noSlash)]
  · cases listed

theorem exists_modelInfo {manager : RunnerManager} (nonempty : manager.modelsPath ≠ [])
    {entry : DirectoryEntry} (regular : entry.isRegularFile = true) {base : Bytes}
    (named : base ≠ []) (same : entry.name = base ++ bytes ".gguf") :
    ∃ info, modelInfo manager entry = some info := by
  rcases exists_parent nonempty with ⟨parent, isParent⟩
  refine ⟨_, if_pos ⟨regular, ?_⟩⟩
  rw [isParent, extension_eq_iff entry.noSlash]
  exact ⟨base, named, same⟩

/-- All listed models can be started under their names exactly when no name of a file in
the directory ends in the extension twice. -/
theorem startable_iff {manager : RunnerManager} (nonempty : manager.modelsPath ≠ [])
    (directory : Directory) :
    Startable manager directory ↔
      ∀ entry ∈ directory.entries, entry.isRegularFile = true →
        ¬bytes ".gguf.gguf" <:+ entry.name := by
  have twice : bytes ".gguf.gguf" = bytes ".gguf" ++ bytes ".gguf" := rfl
  rcases exists_parent nonempty with ⟨parent, isParent⟩
  constructor
  · rintro startable entry isEntry regular ⟨front, same⟩
    rw [twice, ← List.append_assoc] at same
    have named : front ++ bytes ".gguf" ≠ [] := List.append_ne_nil_of_right_ne_nil _ (by decide)
    rcases exists_modelInfo nonempty regular named same.symm with ⟨info, listed⟩
    have resolved := startable.resolves info (List.mem_filterMap.mpr ⟨entry, isEntry, listed⟩)
    rcases modelInfo_eq_some nonempty listed with ⟨-, isName, isPath⟩
    have base : info.name = front ++ bytes ".gguf" :=
      List.append_cancel_right (isName.symm.trans same.symm)
    have noSlash : (0x2F : UInt8) ∉ info.name := fun isSlash =>
      entry.noSlash (isName ▸ List.mem_append_left _ isSlash)
    rw [resolvePath_base nonempty noSlash, if_pos (base ▸ List.suffix_append _ _), isPath, isName,
      isParent, isParent] at resolved
    have sameName := (List.cons.inj (List.append_cancel_left resolved)).2
    exact absurd (List.self_eq_append_right.mp sameName) (by decide)
  · intro single
    constructor
    · intro info isListed
      rcases List.mem_filterMap.mp isListed with ⟨entry, isEntry, listed⟩
      rcases modelInfo_eq_some nonempty listed with ⟨regular, isName, isPath⟩
      have noSlash : (0x2F : UInt8) ∉ info.name := fun isSlash =>
        entry.noSlash (isName ▸ List.mem_append_left _ isSlash)
      have notExtended : ¬bytes ".gguf" <:+ info.name := by
        intro extended
        apply single entry isEntry regular
        rw [twice, isName]
        exact List.suffix_append_self_iff.mpr extended
      rw [resolvePath_base nonempty noSlash, if_neg notExtended, isPath, isName]
    · rw [List.Nodup, List.pairwise_map, listModels, List.pairwise_filterMap]
      refine (List.pairwise_map.mp directory.distinct).imp ?_
      intro entry other differs info listed otherInfo otherListed sameName
      rcases modelInfo_eq_some nonempty listed with ⟨-, isName, -⟩
      rcases modelInfo_eq_some nonempty otherListed with ⟨-, isOtherName, -⟩
      rw [isName, isOtherName, sameName] at differs
      exact differs rfl

/-- A directory with one model. -/
def oneModel (name : Bytes) (nonempty : name ≠ []) (noSlash : (0x2F : UInt8) ∉ name) :
    Directory where
  entries := [⟨name, true, 0, nonempty, noSlash⟩]
  distinct := List.nodup_singleton _

theorem startable_iff_one :
    Startable ⟨[], bytes "models/", ∅, ∅, ∅⟩ (oneModel (bytes "a.gguf") (by decide) (by decide)) ↔
      ∀ entry ∈ (oneModel (bytes "a.gguf") (by decide) (by decide)).entries,
        entry.isRegularFile = true → ¬bytes ".gguf.gguf" <:+ entry.name :=
  startable_iff (by decide) _

/-- The name of a file whose name ends in the extension twice resolves to another file. -/
theorem not_startable_of_doubled :
    ¬Startable ⟨[], bytes "models", ∅, ∅, ∅⟩
      (oneModel (bytes "a.gguf.gguf") (by decide) (by decide)) := by
  intro startable
  have resolved := startable.resolves
  revert resolved
  decide +kernel

end Cllama.Core.RunnerMgr
