import Cllama.Boundary.ClientCommands
import Cllama.Platform.WindowsSpawn
import Cllama.Runner.Main

/-!
# The command line of a runner

The manager starts a runner with the path of its model and its port.  On the systems with `fork`
the arguments are C strings; on Windows they go through one string.  What `main` of the runner
then serves is what the registry says, except for some paths.
-/

namespace Cllama.Boundary

open Cllama.Library WindowsArgv Cllama.Core RunnerMgr Cllama.Platform Windows Cllama.Api
open Cllama.Runner

/-- The arguments of a program that `execvp` starts. -/
def execArgv (binary : Bytes) (args : List Bytes) : List Bytes :=
  (binary :: args).map fun text => text.takeWhile (· ≠ 0x00)

section Argv

variable {loads : Bytes → Bool} {listens : Int → Bool} {binary path : Bytes} {port : Int}
variable {result : Arguments}

/-- A number is written with digits and a sign. -/
theorem not_mem_number (fits : Decimal.Fits port) {octet : UInt8}
    (other : ¬(Decimal.isDigit octet = true ∨ octet = 0x2B ∨ octet = 0x2D)) :
    octet ∉ bytes (toString port) :=
  mt ((Decimal.isInt_toString fits).octets octet) other

/-! ## C strings -/

theorem execArgv_runnerArgs (fits : Decimal.Fits port) :
    (execArgv binary (runnerArgs path port)).drop 1 =
      runnerArgs (path.takeWhile (· ≠ 0x00)) port := by
  have model : (bytes "--model").takeWhile (· ≠ 0x00) = bytes "--model" := by decide
  have portOption : (bytes "--port").takeWhile (· ≠ 0x00) = bytes "--port" := by decide
  have number : (bytes (toString port)).takeWhile (· ≠ 0x00) = bytes (toString port) :=
    takeWhile_ne_eq_self (not_mem_number fits (by decide))
  simp only [execArgv, runnerArgs, List.map_cons, List.map_nil, List.drop_succ_cons, List.drop_zero,
    model, portOption, number]

/-- A runner that was started with `execvp` serves its path up to the first NUL. -/
theorem main_execArgv (fits : Decimal.Fits port) :
    main loads listens (execArgv binary (runnerArgs path port)) = .ok result ↔
      ⟨path.takeWhile (· ≠ 0x00), port, []⟩ = result ∧
        (result.modelPath ≠ [] ∧ result.port ≠ 0) ∧
        loads result.modelPath = true ∧ listens result.port = true := by
  rw [main_eq_ok_iff, execArgv_runnerArgs fits, readArguments_runnerArgs fits, Except.ok.injEq]

/-! ## The string of Windows -/

theorem argFits_number (fits : Decimal.Fits port) : ArgFits (bytes (toString port)) := by
  have nonempty : bytes (toString port) ≠ [] := by
    intro isEmpty
    have read := (Decimal.isInt_toString fits).stoiInt
    rw [isEmpty] at read
    cases read
  exact
    { noNul := not_mem_number fits (by decide)
      noQuote := not_mem_number fits (by decide)
      spaced := fun space => absurd space (not_mem_number fits (by decide))
      unspaced := fun _ => ⟨nonempty, not_mem_number fits (by decide)⟩ }

theorem argFits_option {name : Bytes} (isOption : name = bytes "--model" ∨ name = bytes "--port") :
    ArgFits name := by
  rcases isOption with rfl | rfl
  · exact ⟨by decide, by decide, by decide, by decide⟩
  · exact ⟨by decide, by decide, by decide, by decide⟩

theorem load_le_total {weigh : UInt8 → Nat} {arg : Bytes} {args : List Bytes}
    (isArg : arg ∈ args) : load weigh arg ≤ total weigh 0 args := by
  induction args with
  | nil => cases isArg
  | cons head args ih =>
      rw [total_cons]
      rcases List.mem_cons.mp isArg with rfl | inRest
      · omega
      · exact (ih inRest).trans (by omega)

section Member

variable {a : Bytes} {args : List Bytes}

/-- Arguments without characters that have a meaning. -/
def Plain (args : List Bytes) : Prop :=
  ∀ arg ∈ args, quote ∉ arg ∧ backslash ∉ arg ∧ 0x09 ∉ arg

theorem plain_port (fits : Decimal.Fits port) : Plain [bytes "--port", bytes (toString port)] := by
  rw [Plain, List.forall_mem_cons, List.forall_mem_singleton]
  exact ⟨by decide, not_mem_number fits (by decide), not_mem_number fits (by decide),
    not_mem_number fits (by decide)⟩

theorem total_eq_zero {weigh : UInt8 → Nat} (weightless : ∀ arg ∈ args, ∀ c ∈ arg, weigh c = 0) :
    total weigh 0 args = 0 := by
  induction args with
  | nil => rfl
  | cons arg args ih =>
      rw [List.forall_mem_cons] at weightless
      have light : load weigh arg = 0 := by
        rw [load, List.sum_eq_zero_iff_forall_eq_nat]
        exact List.forall_mem_map.mpr weightless.1
      rw [total_cons, light, ih weightless.2]

theorem total_of_absent {octet : UInt8} (absent : ∀ arg ∈ args, octet ∉ arg) :
    total (fun c => if c = octet then 1 else 0) 0 args = 0 := by
  apply total_eq_zero
  intro arg isArg c isMember
  apply if_neg
  rintro rfl
  exact absent arg isArg isMember

theorem noQuote_of_mem_scan (plain : Plain args)
    (isArg : a ∈ scan (argsText (a :: args)) false 0 none) : quote ∉ a := by
  have bound := @total_scan_le (fun c => if c = backslash ∨ c = quote then 1 else 0) 0
    (by decide) (by simp) (argsText (a :: args)) false 0 none
  have space : (if (0x20 : UInt8) = backslash ∨ (0x20 : UInt8) = quote then 1 else 0) = 0 := by
    decide
  have noWeight : total (fun c => if c = backslash ∨ c = quote then 1 else 0) 0
      (args.map fun a => a.filter (· ≠ quote)) = 0 := by
    apply total_eq_zero
    rw [List.forall_mem_map]
    intro arg isOther c isMember
    have inArg : c ∈ arg := List.mem_of_mem_filter isMember
    apply if_neg
    rintro (rfl | rfl)
    · exact (plain arg isOther).2.1 inArg
    · exact (plain arg isOther).1 inArg
  have member := @load_le_total (fun c => if c = backslash ∨ c = quote then 1 else 0) _ _ isArg
  rw [load_argsText, List.map_cons, total_cons] at bound
  simp only [space, noWeight, pending, Option.getD_none, load_nil] at bound
  rw [load_eq_filter _ a] at member
  simp only [or_true, if_true] at member
  apply List.count_eq_zero.mp
  omega

/-- A backslash before the closing quote is lost. -/
theorem noBackslash_of_mem_scan (plain : Plain args) (noQuote : quote ∉ a) (space : 0x20 ∈ a)
    (isArg : a ∈ scan (argsText (a :: args)) false 0 none) : a.getLast? ≠ some backslash := by
  intro ending
  rcases exists_scan_quoted noQuote (argsText args) with ⟨slashes, current, inside, same, atEnd⟩
  have lost := @total_scan_quote_lt (argsText args) current true slashes (atEnd.mpr ending)
  rw [argsText_of_space space, scan_blank rfl, inside] at isArg
  have member := @load_le_total (fun c => if c = backslash then 1 else 0) _ _ isArg
  have spaceLight : (if (0x20 : UInt8) = backslash then 1 else 0) = 0 := by decide
  rw [same, load_argsText_of_noQuote fun other isOther => (plain other isOther).1, spaceLight,
    total_of_absent fun other isOther => (plain other isOther).2.1] at lost
  omega

/-- Without a space, a tab ends the argument. -/
theorem noTab_of_mem_scan (plain : Plain args) (noQuote : quote ∉ a) (noSpace : 0x20 ∉ a)
    (isArg : a ∈ scan (argsText (a :: args)) false 0 none) : 0x09 ∉ a := by
  intro tab
  have quoteFree : ∀ other ∈ args, quote ∉ other := fun other isOther => (plain other isOther).1
  rcases List.eq_append_cons_of_mem tab with ⟨front, back, rfl, noTab⟩
  rw [scan_argsText_of_tab noQuote noSpace noTab] at isArg
  have backWhole : back.filter (· ≠ quote) = back := by
    apply List.filter_eq_self.mpr (forall_ne_of_not_mem _)
    exact fun isMember => noQuote (by simp [isMember])
  have bound := @total_scan_le (fun c => if c = 0x09 then 1 else 0) 0 (by decide) (by simp)
    (back ++ argsText args) false 0 none
  have spaceLight : (if (0x20 : UInt8) = 0x09 then 1 else 0) = 0 := by decide
  rw [List.filter_append, backWhole, load_append, load_argsText_of_noQuote quoteFree, spaceLight,
    total_of_absent fun other isOther => (plain other isOther).2.2] at bound
  rcases List.mem_append.mp isArg with isFront | inRest
  · split at isFront
    · cases isFront
    · rw [List.mem_singleton] at isFront
      exact noTab (isFront ▸ tab)
  · have member := @load_le_total (fun c => if c = 0x09 then 1 else 0) _ _ inRest
    simp [pending] at bound member
    omega

theorem argFits_of_mem_scan (plain : Plain args) (noNul : 0x00 ∉ a) (nonempty : a ≠ [])
    (isArg : a ∈ scan (argsText (a :: args)) false 0 none) : ArgFits a := by
  have noQuote := noQuote_of_mem_scan plain isArg
  exact
    { noNul := noNul
      noQuote := noQuote
      spaced := fun space => noBackslash_of_mem_scan plain noQuote space isArg
      unspaced := fun noSpace => ⟨nonempty, noTab_of_mem_scan plain noQuote noSpace isArg⟩ }

end Member

/-- If the name of the executable ends the string, there are no arguments. -/
theorem spawnedArgv_of_nul (isNul : 0x00 ∈ binary) (noQuote : quote ∉ binary)
    (args : List Bytes) : (spawnedArgv binary args).drop 1 = [] := by
  rcases List.eq_append_cons_of_mem isNul with ⟨front, back, rfl, noNul⟩
  have free : ∀ c ∈ front, decide (c ≠ quote) = true :=
    forall_ne_of_not_mem fun isMember => noQuote (List.mem_append_left _ isMember)
  have cut : (cmdline (front ++ 0x00 :: back) args).takeWhile (· ≠ 0x00) = quote :: front := by
    rw [cmdline_eq, List.append_assoc, List.cons_append, ← List.cons_append,
      takeWhile_ne_append (by simpa [quote] using noNul)]
  rw [spawnedArgv, cut, commandLineToArgv, if_pos rfl, List.drop_succ_cons,
    List.dropWhile_eq_nil_iff.mpr free]
  rfl

/-- A runner on Windows serves the path it was started for exactly if the path fits. -/
theorem main_spawnedArgv (fits : Decimal.Fits port) (noQuote : quote ∉ binary) :
    main loads listens (spawnedArgv binary (runnerArgs path port)) = .ok ⟨path, port, []⟩ ↔
      (0x00 ∉ binary ∧ ArgFits path) ∧ port ≠ 0 ∧
        loads path = true ∧ listens port = true := by
  rw [main_eq_ok_iff]
  dsimp only
  constructor
  · rintro ⟨read, ⟨nonempty, nonzero⟩, loaded, listening⟩
    refine ⟨?_, nonzero, loaded, listening⟩
    have isArg : path ∈ (spawnedArgv binary (runnerArgs path port)).drop 1 := by
      rcases readArguments_modelPath read with isEmpty | isArg
      · exact absurd isEmpty nonempty
      · exact isArg
    have binaryFree : 0x00 ∉ binary := by
      intro isNul
      rw [spawnedArgv_of_nul isNul noQuote] at isArg
      cases isArg
    have cut : (0x00 : UInt8) ∉ (cmdline binary (runnerArgs path port)).takeWhile (· ≠ 0x00) := by
      intro isMember
      simpa using List.mem_takeWhile_imp isMember
    have noNul : 0x00 ∉ path :=
      not_mem_commandLineToArgv (by decide) cut path (List.mem_of_mem_drop isArg)
    have model := argFits_option (.inl rfl)
    have argsFree : ∀ a ∈ runnerArgs path port, 0x00 ∉ a := by
      simp only [runnerArgs, List.forall_mem_cons, List.not_mem_nil, false_imp_iff, implies_true,
        and_true]
      exact ⟨model.noNul, noNul, (argFits_option (.inr rfl)).noNul, (argFits_number fits).noNul⟩
    rw [spawnedArgv, takeWhile_ne_eq_self (nul_not_mem_cmdline binaryFree argsFree),
      commandLineToArgv_cmdline noQuote, List.drop_succ_cons, List.drop_zero, runnerArgs,
      scan_argsText model.noQuote model.spaced model.unspaced, List.mem_cons] at isArg
    refine ⟨binaryFree, ?_⟩
    rcases isArg with rfl | isArg
    · exact model
    · exact argFits_of_mem_scan (plain_port fits) noNul nonempty isArg
  · rintro ⟨⟨binaryFree, pathFits⟩, nonzero, loaded, listening⟩
    have nonempty : path ≠ [] := by
      rintro rfl
      exact (pathFits.unspaced List.not_mem_nil).1 rfl
    have argsFit : ∀ a ∈ runnerArgs path port, ArgFits a := by
      simp only [runnerArgs, List.forall_mem_cons, List.not_mem_nil, false_imp_iff, implies_true,
        and_true]
      exact ⟨argFits_option (.inl rfl), pathFits, argFits_option (.inr rfl), argFits_number fits⟩
    have spawned : spawnedArgv binary (runnerArgs path port) =
        binary :: runnerArgs path port := by
      have argsFree : ∀ a ∈ runnerArgs path port, 0x00 ∉ a := fun a isArg => (argsFit a isArg).noNul
      rw [spawnedArgv, takeWhile_ne_eq_self (nul_not_mem_cmdline binaryFree argsFree),
        commandLineToArgv_cmdline noQuote, scan_argsText_of_fits argsFit]
    rw [spawned, List.drop_succ_cons, List.drop_zero, readArguments_runnerArgs fits]
    exact ⟨rfl, ⟨nonempty, nonzero⟩, loaded, listening⟩

end Argv

/-- In every state of the server, behind either router, and for every entry, if a runner is
started with the arguments that `spawn_runner` makes of it: on the systems with `fork` it serves on
the port of the entry or not at all, and its model is that of the entry exactly if the path has no
NUL, and otherwise the one at the path up to there; on Windows it serves the model of the entry on
its port exactly if the path fits into the command line. -/
theorem runner_receives (router : RouterImpl) (os : Os) (libraries : Libraries)
    (runnerBinary modelsPath : Bytes) (server : Server) (sized : IntSized os)
    (reachable : (serverMachine router os libraries runnerBinary modelsPath).Reachable server)
    (loads : Bytes → Bool) (listens : Int → Bool) :
    ∀ name r, Entry server.system.manager.runners name r →
      let path := r.info.modelPath
      let args := runnerArgs path r.info.port
      let forked := main loads listens (execArgv r.info.runnerBinary args)
      let created := main loads listens (spawnedArgv r.info.runnerBinary args)
      (∀ served, forked = .ok served → served = ⟨path.takeWhile (· ≠ 0x00), r.info.port, []⟩) ∧
        (forked = .ok ⟨path, r.info.port, []⟩ ↔
          (path ≠ [] ∧ 0x00 ∉ path) ∧ loads path = true ∧ listens r.info.port = true) ∧
        (quote ∉ r.info.runnerBinary →
          (created = .ok ⟨path, r.info.port, []⟩ ↔
            (0x00 ∉ r.info.runnerBinary ∧ ArgFits path) ∧
              loads path = true ∧ listens r.info.port = true)) := by
  intro name r entry path args forked created
  have provenance := (grounded_of_reachable reachable).entries name r entry
  rcases provenance.port with ⟨positive, call, isFree⟩
  have nonzero : r.info.port ≠ 0 := Int.ne_of_gt positive
  have fits : Decimal.Fits r.info.port := by
    have bound := sized.freePort call
    rw [← isFree] at bound
    exact ⟨by omega, by omega⟩
  refine ⟨?_, ?_, ?_⟩
  · intro served isServed
    exact ((main_execArgv fits).mp isServed).1.symm
  · rw [main_execArgv fits]
    dsimp only
    constructor
    · rintro ⟨same, ⟨nonempty, -⟩, loaded, listening⟩
      refine ⟨⟨nonempty, ?_⟩, loaded, listening⟩
      have whole : path.takeWhile (· ≠ 0x00) = path := congrArg Arguments.modelPath same
      intro isNul
      rw [← whole] at isNul
      simpa using List.mem_takeWhile_imp isNul
    · rintro ⟨⟨nonempty, noNul⟩, loaded, listening⟩
      rw [takeWhile_ne_eq_self noNul]
      exact ⟨rfl, ⟨nonempty, nonzero⟩, loaded, listening⟩
  · intro noQuote
    rw [main_spawnedArgv fits noQuote]
    simp only [ne_eq, nonzero, not_false_eq_true, true_and]

theorem runner_receives_oneRunner :
    ∃ name r, Entry oneRunner.system.manager.runners name r ∧
      (main (fun _ => true) (fun _ => true)
            (execArgv r.info.runnerBinary (runnerArgs r.info.modelPath r.info.port)) =
          .ok ⟨r.info.modelPath, r.info.port, []⟩ ↔
        (r.info.modelPath ≠ [] ∧ 0x00 ∉ r.info.modelPath) ∧ true = true ∧ true = true) := by
  have registered : (find (bytes "r") oneRunner.system).isSome = true := by decide +kernel
  rcases Option.isSome_iff_exists.mp registered with ⟨r, entry⟩
  have sized : IntSized oneChild := ⟨by simp [oneChild], by simp [oneChild]⟩
  exact ⟨_, r, entry, (runner_receives .oatpp oneChild .reference [] (bytes "/models") oneRunner
    sized ⟨_, rfl, .single ⟨.request runRequest, rfl⟩⟩ (fun _ => true) (fun _ => true) _ r
    entry).2.1⟩

end Cllama.Boundary
