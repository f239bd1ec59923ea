import Mathlib.Algebra.GroupWithZero.Nat
import Cllama.Library.Lines
import Cllama.Platform.Host

/-!
# Command lines on Linux and macOS

`get_process_cmdline` puts the arguments of a process together again.  Linux shows them in a
file, each with a NUL at its end; macOS returns a buffer that starts with their number, the
path of the executable and some padding.
-/

namespace Cllama.Platform

open Cllama.Library

/-- Strings that C++ appends to a command line, with a space where it is not empty. -/
def appendSeg (cmdline seg : Bytes) : Bytes :=
  cmdline ++ ((if cmdline = [] then [] else [0x20]) ++ seg)

namespace Linux

/-- The strings that `getline` reads up to a NUL or the end of the file. -/
def segments (file : Bytes) : List Bytes :=
  match Lines.split 0x00 file with
  | (segs, rest) => segs ++ if rest = [] then [] else [rest]

/-- The command line for the contents of `/proc/<pid>/cmdline`, if it can be opened. -/
def getProcessCmdline : Option Bytes → Bytes
  | none => []
  | some file => (segments file).foldl appendSeg []

end Linux

namespace MacOS

/-- The C string that a pointer points to, and the pointer behind it.  A pointer is what
follows it in the buffer; without a NUL there, the read goes on beyond the buffer. -/
def readCString (p : Bytes) : Option (Bytes × Bytes) :=
  let arg := p.takeWhile (· ≠ 0x00)
  if 0x00 ∈ p then some (arg, p.drop (arg.length + 1)) else none

/-- A little-endian `int`. -/
def readInt : Bytes → Option (Int × Bytes)
  | a :: b :: c :: d :: p =>
      let value : Nat := a.toNat + 0x100 * b.toNat + 0x10000 * c.toNat + 0x1000000 * d.toNat
      some (if value < 0x80000000 then (value : Int) else (value : Int) - 0x100000000, p)
  | _ => none

/-- The loop over the arguments. -/
def appendArgs : Nat → Bytes → Bytes → Option Bytes
  | 0, cmdline, _ => some cmdline
  | count + 1, cmdline, p => do
      let (arg, p) ← readCString p
      appendArgs count (appendSeg cmdline arg) p

/-- The command line for the buffer that `sysctl` returns, if it does; none is a read beyond
the buffer. -/
def getProcessCmdline : Option Bytes → Option Bytes
  | none => some []
  | some buf => do
      let (argc, p) ← readInt buf
      let (_, p) ← readCString p  -- skip exec path
      let (_, p) ← readCString p  -- skip arg0
      appendArgs (argc - 1).toNat [] p

end MacOS

/-! ## What the kernels return -/

/-- A process: what it was executed from, its arguments, and what a kernel has around them. -/
structure ProcessArgs where
  execPath : Bytes
  padding : Nat
  argv : List Bytes
  rest : Bytes
  execPath_free : 0x00 ∉ execPath
  argv_free : ∀ arg ∈ argv, 0x00 ∉ arg
  nonempty : ∀ arg ∈ argv, arg ≠ []

namespace ProcessArgs

variable (process : ProcessArgs)

/-- Strings with a NUL at the end of each. -/
def terminated (segs : List Bytes) : Bytes :=
  segs.flatMap (· ++ [0x00])

/-- `/proc/<pid>/cmdline`. -/
def procCmdline : Bytes :=
  terminated process.argv

/-- A little-endian `int`. -/
def int32 (value : Nat) : Bytes :=
  [UInt8.ofNat value, UInt8.ofNat (value / 0x100), UInt8.ofNat (value / 0x10000),
    UInt8.ofNat (value / 0x1000000)]

/-- The buffer of `KERN_PROCARGS2`.  The environment follows the arguments. -/
def procArgs2 : Bytes :=
  int32 process.argv.length ++
    (process.execPath ++ 0x00 :: (List.replicate process.padding 0x00 ++
      (terminated process.argv ++ process.rest)))

end ProcessArgs

/-! ## Both walks -/

theorem readCString_append {arg : Bytes} (free : 0x00 ∉ arg) (p : Bytes) :
    MacOS.readCString (arg ++ 0x00 :: p) = some (arg, p) := by
  rw [MacOS.readCString, takeWhile_ne_append free, if_pos (by simp)]
  simp

theorem readCString_isSome {p cmdline : Bytes} :
    ((MacOS.readCString p).bind fun _ => some cmdline) = some cmdline ↔ 0x00 ∈ p := by
  rw [MacOS.readCString]
  split
  next ends => simp [ends]
  next unending => simp [unending]

theorem appendArgs_terminated {segs : List Bytes} (free : ∀ seg ∈ segs, 0x00 ∉ seg) {count : Nat}
    (enough : count ≤ segs.length) (cmdline rest : Bytes) :
    MacOS.appendArgs count cmdline (ProcessArgs.terminated segs ++ rest) =
      some ((segs.take count).foldl appendSeg cmdline) := by
  induction count generalizing segs cmdline with
  | zero => rfl
  | succ count ih =>
      cases segs with
      | nil => cases enough
      | cons seg segs =>
          rw [List.forall_mem_cons] at free
          have cut : ProcessArgs.terminated (seg :: segs) ++ rest =
              seg ++ 0x00 :: (ProcessArgs.terminated segs ++ rest) := by
            simp [ProcessArgs.terminated]
          rw [cut, MacOS.appendArgs, readCString_append free.1]
          exact ih free.2 (Nat.le_of_succ_le_succ enough) _

/-- Strings that a NUL ends each are read one by one. -/
theorem segments_terminated {segs : List Bytes} (free : ∀ seg ∈ segs, 0x00 ∉ seg) :
    Linux.segments (ProcessArgs.terminated segs) = segs := by
  have cut := Lines.split_flatMap free []
  rw [List.append_nil, Lines.split_nil, List.append_nil] at cut
  rw [Linux.segments, ProcessArgs.terminated, cut]
  simp

/-- The number that is read is not above the one that was written, whatever it wraps to. -/
theorem exists_readInt (value : Nat) (p : Bytes) :
    ∃ argc : Int, MacOS.readInt (ProcessArgs.int32 value ++ p) = some (argc, p) ∧ argc ≤ value := by
  refine ⟨_, rfl, ?_⟩
  simp only [UInt8.toNat_ofNat']
  split <;> omega

/-! ## The length of a command line -/

/-- Strings that are not empty are joined by single spaces. -/
theorem foldl_appendSeg {segs : List Bytes} (nonempty : ∀ seg ∈ segs, seg ≠ []) {cmdline : Bytes}
    (start : cmdline ≠ []) :
    segs.foldl appendSeg cmdline = cmdline ++ segs.flatMap (0x20 :: ·) := by
  induction segs generalizing cmdline with
  | nil => simp
  | cons seg segs ih =>
      rw [List.forall_mem_cons] at nonempty
      have step : appendSeg cmdline seg = cmdline ++ 0x20 :: seg := by simp [appendSeg, start]
      rw [List.foldl_cons, step, ih nonempty.2 (by simp)]
      simp

theorem joined_eq_intercalate {segs : List Bytes} (nonempty : ∀ seg ∈ segs, seg ≠ []) :
    segs.foldl appendSeg [] = List.intercalate [0x20] segs := by
  cases segs with
  | nil => rfl
  | cons seg segs =>
      rw [List.forall_mem_cons] at nonempty
      have first : appendSeg [] seg = seg := by simp [appendSeg]
      rw [List.foldl_cons, first, foldl_appendSeg nonempty.2 nonempty.1, intercalate_cons]
      rfl

theorem joined_replicate (count : Nat) (segs : List Bytes) :
    (List.replicate count [] ++ segs).foldl appendSeg [] = segs.foldl appendSeg [] := by
  induction count with
  | zero => rfl
  | succ count ih => exact ih

/-- What a string adds to a command line, with a space. -/
def weight (segs : List Bytes) : Nat :=
  (segs.map fun seg => seg.length + 1).sum

theorem length_joined {segs : List Bytes} (nonempty : ∀ seg ∈ segs, seg ≠ []) :
    (segs.foldl appendSeg []).length = weight segs - 1 := by
  cases segs with
  | nil => rfl
  | cons seg segs =>
      have spaced : (segs.flatMap ([0x20] ++ ·)).length = weight segs := List.length_flatMap
      have total : weight (seg :: segs) = seg.length + 1 + weight segs := List.sum_cons
      rw [joined_eq_intercalate nonempty, intercalate_cons, List.length_append, spaced, total]
      omega

theorem weight_sublist {fewer segs : List Bytes} (nonempty : ∀ seg ∈ segs, seg ≠ [])
    (sublist : fewer.Sublist segs) :
    weight fewer ≤ weight segs ∧ (fewer.length < segs.length → weight fewer + 2 ≤ weight segs) := by
  induction sublist with
  | slnil => simp
  | cons seg _ ih =>
      rw [List.forall_mem_cons] at nonempty
      have positive := List.length_pos_iff.mpr nonempty.1
      have rest := (ih nonempty.2).1
      simp only [weight, List.map_cons, List.sum_cons] at rest ⊢
      omega
  | cons_cons seg _ ih =>
      rw [List.forall_mem_cons] at nonempty
      have rest := ih nonempty.2
      simp only [weight, List.map_cons, List.sum_cons, List.length_cons, Nat.add_lt_add_iff_right]
        at rest ⊢
      omega

/-- A command line without some of the arguments is another one. -/
theorem joined_ne {fewer segs : List Bytes} (nonempty : ∀ seg ∈ segs, seg ≠ [])
    (sublist : fewer.Sublist segs) (shorter : fewer.length < segs.length) :
    fewer.foldl appendSeg [] ≠ segs.foldl appendSeg [] := by
  intro same
  have lengths := congrArg List.length same
  rw [length_joined fun seg isMember => nonempty seg (sublist.subset isMember),
    length_joined nonempty] at lengths
  have lighter := (weight_sublist nonempty sublist).2 shorter
  omega

/-! ## Agreement -/

namespace ProcessArgs

variable (process : ProcessArgs)

/-- On Linux the command line has all arguments. -/
theorem linux_cmdline :
    Linux.getProcessCmdline (some process.procCmdline) = process.argv.foldl appendSeg [] := by
  rw [Linux.getProcessCmdline, procCmdline, segments_terminated process.argv_free]

/-- It is what the host shows of the process. -/
theorem linux_cmdline_eq_joinArgs :
    Linux.getProcessCmdline (some process.procCmdline) = Host.joinArgs process.argv :=
  process.linux_cmdline

/-- On macOS, what is skipped first is the path of the executable. -/
theorem exists_argc : ∃ argc : Int, argc ≤ process.argv.length ∧
    MacOS.getProcessCmdline (some process.procArgs2) =
      (MacOS.readCString (List.replicate process.padding 0x00 ++
        (terminated process.argv ++ process.rest))).bind fun (_, p) =>
          MacOS.appendArgs (argc - 1).toNat [] p := by
  rcases exists_readInt process.argv.length
    (process.execPath ++ 0x00 :: (List.replicate process.padding 0x00 ++
      (terminated process.argv ++ process.rest))) with ⟨argc, isArgc, bounded⟩
  refine ⟨argc, bounded, ?_⟩
  simp only [MacOS.getProcessCmdline, procArgs2, isArgc, Option.bind_eq_bind, Option.bind_some,
    readCString_append process.execPath_free]

/-- Padding is read as empty strings. -/
theorem terminated_replicate (count : Nat) (segs : List Bytes) :
    terminated (List.replicate count [] ++ segs) =
      List.replicate count 0x00 ++ terminated segs := by
  induction count with
  | zero => rfl
  | succ count ih => simpa [terminated, List.replicate_succ] using ih

/-- Without padding the first argument is missing, with padding the last ones are. -/
theorem exists_macos_cmdline (nonempty : process.argv ≠ []) :
    ∃ fewer : List Bytes, fewer.Sublist process.argv ∧ fewer.length < process.argv.length ∧
      MacOS.getProcessCmdline (some process.procArgs2) = some (fewer.foldl appendSeg []) := by
  rcases process.exists_argc with ⟨argc, bounded, isCmdline⟩
  rw [isCmdline]
  have free := process.argv_free
  generalize process.argv = argv at *
  cases isPadding : process.padding with
  | zero =>
      cases argv with
      | nil => exact absurd rfl nonempty
      | cons arg0 args =>
          rw [List.forall_mem_cons] at free
          simp only [List.length_cons] at bounded
          have cut : List.replicate 0 0x00 ++ (terminated (arg0 :: args) ++ process.rest) =
              arg0 ++ 0x00 :: (terminated args ++ process.rest) := by simp [terminated]
          refine ⟨args.take (argc - 1).toNat, ?_, ?_, ?_⟩
          · exact (List.take_sublist _ args).trans (List.sublist_cons_self arg0 args)
          · rw [List.length_cons]
            exact Nat.lt_succ_of_le (List.length_take_le' _ args)
          · rw [cut, readCString_append free.1]
            exact appendArgs_terminated free.2 (by omega) [] process.rest
  | succ count =>
      have positive := List.length_pos_iff.mpr nonempty
      have cut : List.replicate (count + 1) 0x00 ++ (terminated argv ++ process.rest) =
          [] ++ 0x00 :: (terminated (List.replicate count [] ++ argv) ++ process.rest) := by
        rw [terminated_replicate, List.replicate_succ]
        simp
      have allFree : ∀ seg ∈ List.replicate count [] ++ argv, 0x00 ∉ seg := by
        rw [List.forall_mem_append]
        refine ⟨?_, free⟩
        intro seg isEmpty
        rw [List.eq_of_mem_replicate isEmpty]
        exact List.not_mem_nil
      refine ⟨argv.take ((argc - 1).toNat - count), List.take_sublist _ argv, ?_, ?_⟩
      · simp
        omega
      · rw [cut, readCString_append List.not_mem_nil]
        refine (appendArgs_terminated allFree ?_ [] process.rest).trans ?_
        · simp
          omega
        · rw [List.take_append, List.length_replicate, List.take_replicate, joined_replicate]

/-- On Linux the command line is all arguments with single spaces in between.  On macOS it is
the same only if there are no arguments at all, and then only if the walk stays in the
buffer. -/
theorem same_cmdline_iff :
    Linux.getProcessCmdline (some process.procCmdline) = List.intercalate [0x20] process.argv ∧
      (MacOS.getProcessCmdline (some process.procArgs2) =
          some (Linux.getProcessCmdline (some process.procCmdline)) ↔
        process.argv = [] ∧ (0 < process.padding ∨ 0x00 ∈ process.rest)) := by
  rw [linux_cmdline]
  refine ⟨joined_eq_intercalate process.nonempty, ?_⟩
  by_cases isEmpty : process.argv = []
  · rcases process.exists_argc with ⟨argc, bounded, isCmdline⟩
    rw [isEmpty] at bounded
    have none : (argc - 1).toNat = 0 := by
      simp only [List.length_nil] at bounded
      omega
    simp only [isCmdline, isEmpty, none, terminated, List.flatMap_nil, List.nil_append, true_and,
      MacOS.appendArgs, List.foldl_nil]
    rw [readCString_isSome, List.mem_append, List.mem_replicate]
    simp [Nat.pos_iff_ne_zero]
  · rcases process.exists_macos_cmdline isEmpty with ⟨fewer, sublist, shorter, isCmdline⟩
    rw [isCmdline]
    simp [isEmpty, joined_ne process.nonempty sublist shorter]

/-- A server with some padding behind the path of its executable. -/
def serving (padding : Nat) : ProcessArgs where
  execPath := bytes "/bin/cllama"
  padding := padding
  argv := [bytes "cllama", bytes "serve", bytes "start"]
  rest := []
  execPath_free := of_decide_eq_true rfl
  argv_free := of_decide_eq_true rfl
  nonempty := of_decide_eq_true rfl

/-- Without padding the word `cllama` is missing, with much of it the word `serve` is. -/
theorem serving_cmdlines :
    Linux.getProcessCmdline (some (serving 0).procCmdline) = bytes "cllama serve start" ∧
      MacOS.getProcessCmdline (some (serving 0).procArgs2) = some (bytes "serve start") ∧
      MacOS.getProcessCmdline (some (serving 1).procArgs2) = some (bytes "cllama serve") ∧
      MacOS.getProcessCmdline (some (serving 2).procArgs2) = some (bytes "cllama") := by
  decide

end ProcessArgs

end Cllama.Platform
