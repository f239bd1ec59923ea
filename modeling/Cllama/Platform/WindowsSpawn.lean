import Cllama.Library.WindowsArgv

/-!
# Arguments of a process on Windows

`spawn_process` puts the executable and the arguments into one string, which the new process
takes apart again.  The executable is always quoted, an argument only if it has a space; nothing
is escaped.
-/

namespace Cllama.Platform.Windows

open Cllama.Library WindowsArgv

/-- What the loop appends for an argument. -/
def appendArg (a : Bytes) : Bytes :=
  if 0x20 ∈ a then bytes " \"" ++ a ++ bytes "\"" else bytes " " ++ a

/-- The string that `spawn_process` builds. -/
def cmdline (binary : Bytes) (args : List Bytes) : Bytes :=
  args.foldl (fun cmdline a => cmdline ++ appendArg a) (bytes "\"" ++ binary ++ bytes "\"")

/-- The arguments of the new process.  `CreateProcessA` takes the string up to its first
NUL. -/
def spawnedArgv (binary : Bytes) (args : List Bytes) : List Bytes :=
  commandLineToArgv ((cmdline binary args).takeWhile (· ≠ 0x00))

/-- The condition on an argument. -/
structure ArgFits (a : Bytes) : Prop where
  noNul : 0x00 ∉ a
  noQuote : quote ∉ a
  spaced : 0x20 ∈ a → a.getLast? ≠ some backslash
  unspaced : 0x20 ∉ a → a ≠ [] ∧ 0x09 ∉ a

/-! ## The text of the arguments -/

/-- The arguments behind the executable. -/
def argsText (args : List Bytes) : Bytes :=
  args.flatMap appendArg

theorem cmdline_eq (binary : Bytes) (args : List Bytes) :
    cmdline binary args = quote :: (binary ++ quote :: argsText args) := by
  have collected : ∀ text : Bytes,
      args.foldl (fun cmdline a => cmdline ++ appendArg a) text = text ++ argsText args := by
    induction args with
    | nil => simp [argsText]
    | cons a args ih =>
        intro text
        rw [List.foldl_cons, ih, argsText, argsText, List.flatMap_cons, List.append_assoc]
  have quoted : bytes "\"" = [quote] := by decide
  rw [cmdline, collected, quoted]
  simp

theorem appendArg_of_space {a : Bytes} (space : 0x20 ∈ a) :
    appendArg a = 0x20 :: quote :: (a ++ [quote]) := by
  have opening : bytes " \"" = [0x20, quote] := by decide
  have closing : bytes "\"" = [quote] := by decide
  rw [appendArg, if_pos space, opening, closing]
  simp

theorem appendArg_of_no_space {a : Bytes} (noSpace : 0x20 ∉ a) : appendArg a = 0x20 :: a := by
  have opening : bytes " " = [0x20] := by decide
  rw [appendArg, if_neg noSpace, opening]
  simp

/-- The text behind an argument starts with a space, if there is any. -/
theorem argsText_blank (args : List Bytes) :
    argsText args = [] ∨ ∃ c more, argsText args = c :: more ∧ isBlank c = true := by
  cases args with
  | nil => exact Or.inl rfl
  | cons a args =>
      right
      by_cases space : 0x20 ∈ a
      · exact ⟨0x20, quote :: (a ++ [quote]) ++ argsText args,
          by rw [argsText, List.flatMap_cons, appendArg_of_space space]; rfl, rfl⟩
      · exact ⟨0x20, a ++ argsText args,
          by rw [argsText, List.flatMap_cons, appendArg_of_no_space space]; rfl, rfl⟩

theorem commandLineToArgv_cmdline {binary : Bytes} (noQuote : quote ∉ binary)
    (args : List Bytes) :
    commandLineToArgv (cmdline binary args) = binary :: scan (argsText args) false 0 none := by
  rw [cmdline_eq, commandLineToArgv, if_pos rfl, takeWhile_ne_append noQuote,
    List.dropWhile_append_of_pos (forall_ne_of_not_mem noQuote),
    List.dropWhile_cons_of_neg (by simp)]
  rfl

/-! ## Arguments that are read back -/

section Args

variable {a : Bytes} {args : List Bytes}

theorem argsText_of_space (space : 0x20 ∈ a) :
    argsText (a :: args) = 0x20 :: quote :: (a ++ quote :: argsText args) := by
  rw [argsText, List.flatMap_cons, appendArg_of_space space, ← argsText]
  simp

theorem argsText_of_no_space (noSpace : 0x20 ∉ a) :
    argsText (a :: args) = 0x20 :: (a ++ argsText args) := by
  rw [argsText, List.flatMap_cons, appendArg_of_no_space noSpace, ← argsText]
  rfl

theorem forall_not_blank (noSpace : 0x20 ∉ a) (noTab : 0x09 ∉ a) :
    ∀ c ∈ a, isBlank c = false := by
  intro c isMember
  have notSpace : c ≠ 0x20 := by
    rintro rfl
    exact noSpace isMember
  have notTab : c ≠ 0x09 := by
    rintro rfl
    exact noTab isMember
  simp [isBlank, notSpace, notTab]

theorem scan_argsText (noQuote : quote ∉ a)
    (spaced : 0x20 ∈ a → a.getLast? ≠ some backslash)
    (unspaced : 0x20 ∉ a → a ≠ [] ∧ 0x09 ∉ a) :
    scan (argsText (a :: args)) false 0 none = a :: scan (argsText args) false 0 none := by
  by_cases space : 0x20 ∈ a
  · rcases exists_scan_quoted noQuote (argsText args) with ⟨slashes, current, scanned, same, ending⟩
    have none : slashes = 0 := Nat.eq_zero_of_not_pos (mt ending.mp (spaced space))
    subst none
    rw [argsText_of_space space, scan_blank rfl, scanned, scan_quote,
      scan_end (argsText_blank args), same]
  · rcases unspaced space with ⟨nonempty, noTab⟩
    rw [argsText_of_no_space space, scan_blank rfl,
      scan_word nonempty noQuote (forall_not_blank space noTab) (argsText_blank args)]

theorem scan_argsText_of_fits (fits : ∀ a ∈ args, ArgFits a) :
    scan (argsText args) false 0 none = args := by
  induction args with
  | nil => rfl
  | cons a args ih =>
      rw [List.forall_mem_cons] at fits
      rw [scan_argsText fits.1.noQuote fits.1.spaced fits.1.unspaced, ih fits.2]

/-! ## Arguments that are not -/

variable {weigh : UInt8 → Nat}

theorem load_argsText (args : List Bytes) :
    load weigh ((argsText args).filter (· ≠ quote)) =
      total weigh (weigh 0x20) (args.map fun a => a.filter (· ≠ quote)) := by
  induction args with
  | nil => rfl
  | cons a args ih =>
      rw [List.map_cons, total_cons, ← ih, Nat.add_assoc, ← load_append, ← List.filter_append]
      by_cases space : 0x20 ∈ a
      · rw [argsText_of_space space, List.filter_cons_of_pos (by decide),
          List.filter_cons_of_neg (by decide), List.filter_append,
          List.filter_cons_of_neg (by decide), load_cons, ← List.filter_append]
      · rw [argsText_of_no_space space, List.filter_cons_of_pos (by decide), load_cons]

theorem load_argsText_of_noQuote (noQuote : ∀ a ∈ args, quote ∉ a) :
    load weigh ((argsText args).filter (· ≠ quote)) = total weigh (weigh 0x20) args := by
  have whole : args.map (fun a => a.filter (· ≠ quote)) = args := by
    apply (List.map_congr_left _).trans (List.map_id args)
    exact fun a isArg => List.filter_eq_self.mpr (forall_ne_of_not_mem (noQuote a isArg))
  rw [load_argsText, whole]

theorem load_eq_filter (weigh : UInt8 → Nat) (a : Bytes) :
    load weigh a = load weigh (a.filter (· ≠ quote)) + a.count quote * weigh quote := by
  induction a with
  | nil => simp
  | cons c a ih =>
      by_cases isQuote : c = quote
      · subst isQuote
        rw [List.filter_cons_of_neg (by decide), load_cons, ih, List.count_cons_self, Nat.add_mul]
        omega
      · rw [List.filter_cons_of_pos (by simpa using isQuote), load_cons, load_cons, ih,
          List.count_cons_of_ne isQuote]
        omega

theorem total_eq_filter (args : List Bytes) :
    total weigh 0 args = total weigh 0 (args.map fun a => a.filter (· ≠ quote)) +
      (args.map (List.count quote)).sum * weigh quote := by
  induction args with
  | nil => simp
  | cons a args ih =>
      simp only [List.map_cons, total_cons, List.sum_cons, Nat.add_mul]
      rw [ih, load_eq_filter weigh a]
      omega

/-- A quote in an argument could only come from a backslash that is then missing. -/
theorem noQuote_of_scan (scanned : scan (argsText args) false 0 none = args) :
    ∀ a ∈ args, quote ∉ a := by
  have bound := @total_scan_le (fun c => if c = backslash ∨ c = quote then 1 else 0) 0
    (by decide) (by simp) (argsText args) false 0 none
  have space : (if (0x20 : UInt8) = backslash ∨ (0x20 : UInt8) = quote then 1 else 0) = 0 := by
    decide
  rw [scanned, load_argsText, total_eq_filter] at bound
  simp only [space, pending, Option.getD_none, load_nil, or_true, if_true] at bound
  intro a isArg
  have none : (args.map (List.count quote)).sum = 0 := by omega
  rw [List.sum_eq_zero_iff_forall_eq_nat] at none
  exact List.count_eq_zero.mp (none _ (List.mem_map_of_mem isArg))

/-- A backslash before the closing quote is lost. -/
theorem not_space_of_scan (noQuote : ∀ other ∈ a :: args, quote ∉ other) (space : 0x20 ∈ a)
    (ending : a.getLast? = some backslash) :
    scan (argsText (a :: args)) false 0 none ≠ a :: args := by
  intro scanned
  rw [List.forall_mem_cons] at noQuote
  rcases exists_scan_quoted noQuote.1 (argsText args) with ⟨slashes, current, inside, same, atEnd⟩
  have lost := @total_scan_quote_lt (argsText args) current true slashes (atEnd.mpr ending)
  rw [argsText_of_space space, scan_blank rfl, inside] at scanned
  rw [scanned, same, load_argsText_of_noQuote noQuote.2] at lost
  have spaceLight : (if (0x20 : UInt8) = backslash then 1 else 0) = 0 := by decide
  simp only [spaceLight, total_cons] at lost
  omega

/-- A tab that is not quoted ends a word. -/
theorem scan_argsText_of_tab {front back : Bytes} (noQuote : quote ∉ front ++ 0x09 :: back)
    (noSpace : 0x20 ∉ front ++ 0x09 :: back) (noTab : 0x09 ∉ front) :
    scan (argsText ((front ++ 0x09 :: back) :: args)) false 0 none =
      (if front = [] then [] else [front]) ++ scan (back ++ argsText args) false 0 none := by
  rw [List.mem_append, not_or] at noQuote noSpace
  have behind : isBlank 0x09 = true := rfl
  rw [argsText_of_no_space (by simpa using noSpace), scan_blank rfl, List.append_assoc,
    List.cons_append]
  split
  next isEmpty => rw [isEmpty, List.nil_append, scan_blank behind, List.nil_append]
  next nonempty =>
    rw [scan_word nonempty noQuote.1 (forall_not_blank noSpace.1 noTab)
      (Or.inr ⟨_, _, rfl, behind⟩), scan_blank behind, List.singleton_append]

/-- So it is lost. -/
theorem not_tab_of_scan (noQuote : ∀ other ∈ a :: args, quote ∉ other) (noSpace : 0x20 ∉ a)
    (tab : 0x09 ∈ a) : scan (argsText (a :: args)) false 0 none ≠ a :: args := by
  intro scanned
  rw [List.forall_mem_cons] at noQuote
  rcases List.eq_append_cons_of_mem tab with ⟨front, back, rfl, noTab⟩
  rw [scan_argsText_of_tab noQuote.1 noSpace noTab] at scanned
  have backWhole : back.filter (· ≠ quote) = back := by
    apply List.filter_eq_self.mpr (forall_ne_of_not_mem _)
    exact fun isMember => noQuote.1 (by simp [isMember])
  have bound := @total_scan_le (fun c => if c = 0x09 then 1 else 0) 0 (by decide) (by simp)
    (back ++ argsText args) false 0 none
  rw [List.filter_append, backWhole, load_append, load_argsText_of_noQuote noQuote.2] at bound
  have lighter := congrArg (total (fun c => if c = 0x09 then 1 else 0) 0) scanned
  have spaceLight : (if (0x20 : UInt8) = 0x09 then 1 else 0) = 0 := by decide
  simp only [spaceLight, pending, Option.getD_none, load_nil, Nat.zero_mul] at bound
  split at lighter
  · simp at lighter
    omega
  · simp at lighter
    omega

/-- An empty argument is lost. -/
theorem not_empty_of_scan (noQuote : ∀ other ∈ args, quote ∉ other) :
    scan (argsText ([] :: args)) false 0 none ≠ [] :: args := by
  intro scanned
  rw [argsText_of_no_space List.not_mem_nil, scan_blank rfl, List.nil_append] at scanned
  have bound : total (fun _ => 1) 1 (scan (argsText args) false 0 none) ≤
      total (fun _ => 1) 1 args := by
    rw [← load_argsText_of_noQuote noQuote]
    rcases argsText_blank args with nothing | ⟨c, more, isText, blank⟩
    · simp [nothing, scan, finish]
    · have step := @total_scan_le (fun _ => 1) 1 (by simp) (by simp) more false 0 none
      have notQuote : c ≠ quote := by
        rintro rfl
        cases blank
      rw [isText, scan_blank blank, List.filter_cons_of_pos (by simpa using notQuote), load_cons]
      simpa [pending] using step
  rw [scanned, total_cons] at bound
  omega

theorem fits_of_scan (noQuote : ∀ a ∈ args, quote ∉ a) (noNul : ∀ a ∈ args, 0x00 ∉ a)
    (scanned : scan (argsText args) false 0 none = args) : ∀ a ∈ args, ArgFits a := by
  induction args with
  | nil => simp
  | cons a args ih =>
      have quoteFree := List.forall_mem_cons.mp noQuote
      have nulFree := List.forall_mem_cons.mp noNul
      have fits : ArgFits a := by
        refine ⟨nulFree.1, quoteFree.1, ?_, fun noSpace => ⟨?_, ?_⟩⟩
        · intro space ending
          exact not_space_of_scan noQuote space ending scanned
        · rintro rfl
          exact not_empty_of_scan quoteFree.2 scanned
        · intro tab
          exact not_tab_of_scan noQuote noSpace tab scanned
      rw [scan_argsText fits.noQuote fits.spaced fits.unspaced] at scanned
      rw [List.forall_mem_cons]
      exact ⟨fits, ih quoteFree.2 nulFree.2 (List.cons.inj scanned).2⟩

end Args

/-! ## Round trips -/

theorem mem_appendArg {a : Bytes} (isNul : 0x00 ∈ appendArg a) : 0x00 ∈ a := by
  by_cases space : 0x20 ∈ a
  · rw [appendArg_of_space space] at isNul
    simpa [quote] using isNul
  · rw [appendArg_of_no_space space] at isNul
    simpa using isNul

theorem nul_not_mem_cmdline {binary : Bytes} {args : List Bytes} (binaryFree : 0x00 ∉ binary)
    (argsFree : ∀ a ∈ args, 0x00 ∉ a) : 0x00 ∉ cmdline binary args := by
  have textFree : 0x00 ∉ argsText args := by
    intro isMember
    rcases List.mem_flatMap.mp isMember with ⟨a, isArg, inArg⟩
    exact argsFree a isArg (mem_appendArg inArg)
  rw [cmdline_eq]
  simp [quote, binaryFree, textFree]

/-- Any executable path without quotes and any arguments: they are given back exactly if there
is no NUL, and no argument has a quote, has a space and a backslash at its end, has a tab but
no space, or is empty. -/
theorem spawnedArgv_eq_iff (binary : Bytes) (args : List Bytes) (noQuote : quote ∉ binary) :
    spawnedArgv binary args = binary :: args ↔ 0x00 ∉ binary ∧ ∀ a ∈ args, ArgFits a := by
  constructor
  · intro spawned
    have cut : (0x00 : UInt8) ∉ (cmdline binary args).takeWhile (· ≠ 0x00) := by
      intro isMember
      simpa using List.mem_takeWhile_imp isMember
    have noNul := not_mem_commandLineToArgv (by decide) cut
    rw [← spawnedArgv, spawned, List.forall_mem_cons] at noNul
    rw [spawnedArgv, takeWhile_ne_eq_self (nul_not_mem_cmdline noNul.1 noNul.2),
      commandLineToArgv_cmdline noQuote, List.cons.injEq] at spawned
    exact ⟨noNul.1, fits_of_scan (noQuote_of_scan spawned.2) noNul.2 spawned.2⟩
  · rintro ⟨binaryFree, fits⟩
    have argsFree : ∀ a ∈ args, 0x00 ∉ a := fun a isArg => (fits a isArg).noNul
    rw [spawnedArgv, takeWhile_ne_eq_self (nul_not_mem_cmdline binaryFree argsFree),
      commandLineToArgv_cmdline noQuote, scan_argsText_of_fits fits]

theorem spawnedArgv_eq_iff_runner :
    spawnedArgv (bytes "C:\\bin\\runner.exe") [bytes "--model", bytes "C:\\my models\\m"] =
        [bytes "C:\\bin\\runner.exe", bytes "--model", bytes "C:\\my models\\m"] ↔
      0x00 ∉ bytes "C:\\bin\\runner.exe" ∧
        ∀ a ∈ [bytes "--model", bytes "C:\\my models\\m"], ArgFits a :=
  spawnedArgv_eq_iff _ _ (by decide)

/-- A folder that is given with a backslash at its end swallows what follows it; an empty
argument is not there; a tab takes an argument apart. -/
theorem spawnedArgv_differs :
    spawnedArgv (bytes "r") [bytes "C:\\my dir\\", bytes "--port"] =
        [bytes "r", bytes "C:\\my dir\" --port"] ∧
      spawnedArgv (bytes "r") [bytes "", bytes "--port"] = [bytes "r", bytes "--port"] ∧
      spawnedArgv (bytes "r") [bytes "a\tb"] = [bytes "r", bytes "a", bytes "b"] ∧
      spawnedArgv (bytes "r") [bytes "a\"b"] = [bytes "r", bytes "ab"] := by
  decide

end Cllama.Platform.Windows
