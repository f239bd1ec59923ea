import Cllama.Util.CflagNumbers
import Cllama.Util.CflagSpecifications

/-!
# The two names of an option

Both names in a specification are meant to lead to its option, at any place of the loop and
directly behind the name of the command.  Whether they do is decided by what the declaration has
kept of them, by the options that are declared before, and by the names that ask for help.
-/

namespace Cllama.Util

open Cllama.Library Cllama.Library.Decimal

variable {V F : Type}

/-! ## The option that a token leads to -/

/-- An option is the first of its kind. -/
theorem find_zipIdx_iff {earlier later : List (CmdOption V F)} {opt : CmdOption V F}
    {p : CmdOption V F → Bool} :
    (earlier ++ opt :: later).zipIdx.find? (fun found => p found.1) = some (opt, earlier.length) ↔
      p opt = true ∧ ∀ other ∈ earlier, p other = false := by
  rw [List.zipIdx_append, List.find?_append, List.zipIdx_cons, Nat.zero_add]
  constructor
  · intro isFound
    cases before : earlier.zipIdx.find? (fun found => p found.1) with
    | some found =>
        rw [before, Option.some_or, Option.some.injEq] at isFound
        have isMember := List.mem_of_find?_eq_some before
        rw [isFound] at isMember
        have := List.snd_lt_of_mem_zipIdx isMember
        omega
    | none =>
        rw [before, Option.none_or] at isFound
        have holds : p opt = true :=
          @List.find?_some _ (fun found : CmdOption V F × Nat => p found.1) _ _ isFound
        refine ⟨holds, fun other isMember => ?_⟩
        rcases List.getElem_of_mem isMember with ⟨i, bound, rfl⟩
        have noMatch := List.find?_eq_none.mp before (earlier[i], i)
          (List.mem_zipIdx_iff_getElem?.mpr (List.getElem?_eq_getElem bound))
        exact Bool.eq_false_iff.mpr noMatch
  · rintro ⟨holds, noMatch⟩
    have before : earlier.zipIdx.find? (fun found => p found.1) = none := by
      rw [List.find?_eq_none]
      intro found isMember
      rw [noMatch found.1 (List.fst_mem_of_mem_zipIdx isMember)]
      exact Bool.false_ne_true
    rw [before, Option.none_or]
    exact @List.find?_cons_of_pos _ (fun found : CmdOption V F × Nat => p found.1) _ _ holds

/-- The option at its own position. -/
theorem eq_of_find {earlier later : List (CmdOption V F)} {opt other : CmdOption V F}
    {p : CmdOption V F × Nat → Bool}
    (isFound : (earlier ++ opt :: later).zipIdx.find? p = some (other, earlier.length)) :
    other = opt := by
  have isMember := List.mem_of_find?_eq_some isFound
  rw [List.mem_zipIdx_iff_getElem?, List.getElem?_append_right le_rfl, Nat.sub_self] at isMember
  cases isMember
  rfl

variable {cmd : Command V F}

/-- The first option that a token leads to, and its position. -/
def Command.found (cmd : Command V F) (token : Bytes) : Option (CmdOption V F × Nat) :=
  cmd.options.zipIdx.find? (·.1.answers token)

theorem Command.found_short (c : UInt8) : cmd.found (CmdOption.short c) = cmd.findShort c := rfl

theorem Command.found_long {name : Bytes} (long : 2 < name.length)
    (dashes : name.take 2 = [0x2D, 0x2D]) :
    cmd.found name = cmd.findOption (name.takeWhile (· ≠ 0x3D)) := by
  have same : ∀ found : CmdOption V F × Nat,
      found.1.answers name = found.1.match (name.takeWhile (· ≠ 0x3D)) := by
    intro found
    rw [CmdOption.answers, shape_of_long long dashes]
  simp only [Command.found, Command.findOption, same]

section Reading

variable {name : Bytes} (isName : IsName name) {found : CmdOption V F × Nat} (args : List Bytes)

include isName

theorem Command.reading_unknown (unknown : cmd.found name = none) :
    ∃ message, cmd.reading (name :: args) = .stopped message := by
  refine ⟨bytes "Unknown option: " ++ name, ?_⟩
  rw [Command.reading.eq_def]
  cases isName with
  | short c =>
      rw [Command.found_short] at unknown
      simp [CmdOption.short, shape, unknown]
  | long long dashes =>
      rw [Command.found_long long dashes] at unknown
      simp only [shape_of_long long dashes, unknown]

theorem Command.reading_flag (isFound : cmd.found name = some found)
    (isFlag : found.1.isFlag = true) :
    cmd.reading (name :: args) = (cmd.reading args).behind found (bytes "true") := by
  rw [Command.reading.eq_def]
  cases isName with
  | short c =>
      rw [Command.found_short] at isFound
      simp [CmdOption.short, shape, isFound, isFlag]
  | long long dashes =>
      rw [Command.found_long long dashes] at isFound
      simp only [shape_of_long long dashes, isFound, isFlag, if_true]

theorem Command.reading_attached (isFound : cmd.found name = some found)
    (valued : found.1.isFlag = false) (attached : ¬Detached name) :
    ∃ raw, cmd.reading (name :: args) = (cmd.reading args).behind found raw := by
  rw [Command.reading.eq_def]
  cases isName with
  | short c => exact absurd (fun _ => rfl) attached
  | long long dashes =>
      rw [Command.found_long long dashes] at isFound
      have hasEquals : 0x3D ∈ name := by
        by_contra noEquals
        exact attached fun hasEquals => absurd hasEquals noEquals
      simp only [shape_of_long long dashes, isFound, valued, hasEquals, if_true]
      exact ⟨_, rfl⟩

theorem Command.reading_value (isFound : cmd.found name = some found)
    (valued : found.1.isFlag = false) (detached : Detached name) (raw : Bytes) :
    cmd.reading (name :: raw :: args) = (cmd.reading args).behind found raw := by
  rw [Command.reading.eq_def]
  cases isName with
  | short c =>
      rw [Command.found_short] at isFound
      simp [CmdOption.short, shape, isFound, valued]
  | long long dashes =>
      rw [Command.found_long long dashes] at isFound
      simp only [shape_of_long long dashes, isFound, valued, detached.noEquals long, if_false]
      rfl

theorem Command.reading_missing (isFound : cmd.found name = some found)
    (valued : found.1.isFlag = false) (detached : Detached name) :
    ∃ message, cmd.reading [name] = .stopped message := by
  rw [Command.reading.eq_def]
  cases isName with
  | short c =>
      rw [Command.found_short] at isFound
      simp [CmdOption.short, shape, isFound, valued]
  | long long dashes =>
      rw [Command.found_long long dashes] at isFound
      simp only [shape_of_long long dashes, isFound, valued, detached.noEquals long, if_false]
      exact ⟨_, rfl⟩

end Reading

/-! ## Names that lead to an option -/

theorem wasSet_behind_nothing {found : CmdOption V F × Nat} {raw : Bytes} {i : Nat}
    (isSet : (Reading.nothing.behind found raw).wasSet [] = [i]) : found.2 = i := by
  rw [Reading.wasSet] at isSet
  change (if found.1.val.target.isSome = true then [found.2] else []) = [i] at isSet
  split at isSet
  · cases isSet
    rfl
  · cases isSet

/-- If a token and a value behind it set one option and nothing else, the token is that option
without anything attached. -/
theorem found_of_value {name : Bytes} (isName : IsName name) {i : Nat}
    (noStop : (cmd.reading [name, bytes "0"]).stop = none)
    (isSet : (cmd.reading [name, bytes "0"]).wasSet [] = [i])
    (noPositional : (cmd.reading [name, bytes "0"]).positional = []) :
    (∃ opt, cmd.found name = some (opt, i)) ∧ Detached name := by
  have behind : cmd.reading [bytes "0"] = Reading.nothing.behindPositional (bytes "0") := rfl
  cases isFound : cmd.found name with
  | none =>
      rcases Command.reading_unknown isName [bytes "0"] isFound with ⟨message, stops⟩
      rw [stops] at noStop
      cases noStop
  | some found =>
      cases isFlag : found.1.isFlag with
      | true =>
          rw [Command.reading_flag isName _ isFound isFlag, behind] at noPositional
          cases noPositional
      | false =>
          by_cases detached : Detached name
          · rw [Command.reading_value isName [] isFound isFlag detached] at isSet
            rw [← wasSet_behind_nothing isSet]
            exact ⟨⟨found.1, rfl⟩, detached⟩
          · rcases Command.reading_attached isName [bytes "0"] isFound isFlag detached with
              ⟨raw, attached⟩
            rw [attached, behind] at noPositional
            cases noPositional

/-- If a token alone sets one option and nothing else, it is that option. -/
theorem found_of_flag {name : Bytes} (isName : IsName name) {i : Nat}
    (noStop : (cmd.reading [name]).stop = none) (isSet : (cmd.reading [name]).wasSet [] = [i]) :
    ∃ opt, cmd.found name = some (opt, i) := by
  cases isFound : cmd.found name with
  | none =>
      rcases Command.reading_unknown isName [] isFound with ⟨message, stops⟩
      rw [stops] at noStop
      cases noStop
  | some found =>
      cases isFlag : found.1.isFlag with
      | true =>
          rw [Command.reading_flag isName [] isFound isFlag] at isSet
          rw [← wasSet_behind_nothing isSet]
          exact ⟨found.1, rfl⟩
      | false =>
          by_cases detached : Detached name
          · rcases Command.reading_missing isName isFound isFlag detached with ⟨message, stops⟩
            rw [stops] at noStop
            cases noStop
          · rcases Command.reading_attached isName [] isFound isFlag detached with
              ⟨raw, attached⟩
            rw [attached] at isSet
            rw [← wasSet_behind_nothing isSet]
            exact ⟨found.1, rfl⟩

/-- A zero can be given to any option, if need be by a conversion made for it. -/
theorem exists_converts (opt : CmdOption V F) :
    ∃ stof : Bytes → Option F, (opt.val.convert stof (bytes "0")).isSome = true := by
  cases isFallback : opt.val.fallback with
  | string text => exact ⟨fun _ => none, by rw [TypedValue.convert, isFallback]; rfl⟩
  | int number => exact ⟨fun _ => none, by rw [TypedValue.convert, isFallback]; rfl⟩
  | float number => exact ⟨fun _ => some number, by rw [TypedValue.convert, isFallback]; rfl⟩
  | bool truth => exact ⟨fun _ => none, by rw [TypedValue.convert, isFallback]; rfl⟩

section Loop

variable [DecidableEq V]

/-- What a successful loop has read. -/
theorem Reading.apply_eq_ok {stof : Bytes → Option F} {reading : Reading V F}
    {bound next : Bound V F} (isOk : reading.apply stof bound = .ok next) :
    reading.stop = none ∧ next.wasSet = reading.wasSet bound.wasSet ∧
      next.positional = bound.positional ++ reading.positional := by
  rcases bind_eq_ok isOk with ⟨store, -, judged⟩
  cases isStop : reading.stop with
  | some failure =>
      rw [isStop] at judged
      cases judged
  | none =>
      rw [isStop] at judged
      cases judged
      exact ⟨rfl, rfl, rfl⟩

/-- At any place of the loop, a token sets the option at a position. -/
structure Binds (cmd : Command V F) (opt : CmdOption V F) (i : Nat) (token : Bytes) : Prop where
  value : opt.isFlag = false → ∀ (stof : Bytes → Option F) raw args bound,
    parseLoop stof cmd (token :: raw :: args) bound =
      bound.set stof (opt, i) raw >>= parseLoop stof cmd args
  flag : opt.isFlag = true → ∀ (stof : Bytes → Option F) args bound,
    parseLoop stof cmd (token :: args) bound =
      bound.set stof (opt, i) (bytes "true") >>= parseLoop stof cmd args

theorem Bound.set_of_converts {stof : Bytes → Option F} {opt : CmdOption V F} {raw : Bytes}
    (hasTarget : opt.val.target.isSome = true)
    (converts : (opt.val.convert stof raw).isSome = true) (i : Nat) (bound : Bound V F) :
    ∃ next, bound.set stof (opt, i) raw = .ok next ∧ next.wasSet = i :: bound.wasSet ∧
      next.positional = bound.positional := by
  rcases TypedValue.set_of_converts (fun _ => converts) bound.store with ⟨store, isSet⟩
  rw [Bound.set, isSet]
  exact ⟨_, rfl, if_pos hasTarget, rfl⟩

section Binds

variable {opt : CmdOption V F} (hasTarget : opt.val.target.isSome = true) {name : Bytes}
  (isName : IsName name) {i : Nat} (binds : Binds cmd opt i name)

include hasTarget isName binds

/-- A flag that is set by a token alone is found by it. -/
theorem Binds.found_flag (isFlag : opt.isFlag = true) :
    ∃ other, cmd.found name = some (other, i) := by
  have converts : (opt.val.convert (fun _ : Bytes => (none : Option F)) (bytes "true")).isSome =
      true := by
    rw [TypedValue.convert, opt.flag_fallback isFlag]
    rfl
  rcases Bound.set_of_converts hasTarget converts i ⟨fun _ => opt.val.fallback, [], []⟩ with
    ⟨next, isSet, wasSet, -⟩
  have looped := binds.flag isFlag (fun _ => none) [] ⟨fun _ => opt.val.fallback, [], []⟩
  rw [isSet, parseLoop_eq] at looped
  rcases Reading.apply_eq_ok looped with ⟨noStop, readSet, -⟩
  rw [wasSet] at readSet
  exact found_of_flag isName noStop readSet.symm

/-- An option that is set by a token and the text behind it is found by the token. -/
theorem Binds.found_value (valued : opt.isFlag = false) :
    (∃ other, cmd.found name = some (other, i)) ∧ Detached name := by
  rcases exists_converts opt with ⟨stof, converts⟩
  rcases Bound.set_of_converts hasTarget converts i ⟨fun _ => opt.val.fallback, [], []⟩ with
    ⟨next, isSet, wasSet, noPositional⟩
  have looped := binds.value valued stof (bytes "0") [] ⟨fun _ => opt.val.fallback, [], []⟩
  rw [isSet, parseLoop_eq] at looped
  rcases Reading.apply_eq_ok looped with ⟨noStop, readSet, readPositional⟩
  rw [wasSet] at readSet
  rw [noPositional] at readPositional
  exact found_of_value isName noStop readSet.symm readPositional.symm

end Binds

theorem Binds.found {earlier later : List (CmdOption V F)} {opt : CmdOption V F}
    (options : cmd.options = earlier ++ opt :: later) (hasTarget : opt.val.target.isSome = true)
    {name : Bytes} (isName : IsName name) (binds : Binds cmd opt earlier.length name) :
    cmd.found name = some (opt, earlier.length) ∧ (opt.isFlag = false → Detached name) := by
  have same : (∃ other, cmd.found name = some (other, earlier.length)) →
      cmd.found name = some (opt, earlier.length) := by
    rintro ⟨other, isFound⟩
    rw [Command.found, options] at isFound
    rw [Command.found, options, isFound, eq_of_find isFound]
  cases isFlag : opt.isFlag with
  | true =>
      have isFound := binds.found_flag hasTarget isName isFlag
      exact ⟨same isFound, fun valued => by cases valued⟩
  | false =>
      have isFound := binds.found_value hasTarget isName isFlag
      exact ⟨same isFound.1, fun _ => isFound.2⟩

/-- A name sets an option exactly if the option answers to it, none in front of it does, and
nothing is attached to the name where a value is expected. -/
theorem binds_iff {earlier later : List (CmdOption V F)} {opt : CmdOption V F}
    (options : cmd.options = earlier ++ opt :: later) (hasTarget : opt.val.target.isSome = true)
    {name : Bytes} (isName : IsName name) :
    Binds cmd opt earlier.length name ↔
      opt.answers name = true ∧ (∀ other ∈ earlier, other.answers name = false) ∧
        (opt.isFlag = false → Detached name) := by
  have found_iff : cmd.found name = some (opt, earlier.length) ↔
      opt.answers name = true ∧ ∀ other ∈ earlier, other.answers name = false := by
    rw [Command.found, options]
    exact @find_zipIdx_iff _ _ _ _ _ (·.answers name)
  rw [← and_assoc, ← found_iff]
  constructor
  · exact fun binds => binds.found options hasTarget isName
  · rintro ⟨isFound, detached⟩
    constructor
    · intro valued stof raw args bound
      rw [parseLoop_eq, Command.reading_value isName args isFound valued (detached valued),
        Reading.apply_behind]
      apply congrArg
      funext after
      exact (parseLoop_eq cmd args after).symm
    · intro isFlag stof args bound
      rw [parseLoop_eq, Command.reading_flag isName args isFound isFlag, Reading.apply_behind]
      apply congrArg
      funext after
      exact (parseLoop_eq cmd args after).symm

end Loop

/-! ## Names directly behind a command -/

/-- The descent ends at a word that names no subcommand. -/
theorem findSubcommand_of_descend {parents : List (Command V F)} {args rest : List Bytes}
    {position : Position V F} {token : Bytes}
    (descends : descend parents cmd args = (position, token :: rest)) :
    position.command.findSubcommand token = none := by
  induction args generalizing parents cmd with
  | nil => cases descends
  | cons a args ih =>
      rw [descend] at descends
      cases isSub : cmd.findSubcommand a with
      | none =>
          rw [isSub] at descends
          cases descends
          exact isSub
      | some sub =>
          rw [isSub] at descends
          exact ih descends

theorem App.findSubcommand_of_select {app : App V F} {first : Bytes} {others rest : List Bytes}
    {position : Position V F} {token : Bytes}
    (selects : app.select first others = some (position, token :: rest)) :
    position.command.findSubcommand token = none := by
  unfold App.select at selects
  split at selects
  · exact findSubcommand_of_descend (Option.some.inj selects)
  · rcases Option.map_eq_some_iff.mp selects with ⟨default, -, descends⟩
    exact findSubcommand_of_descend descends

section Behind

variable [DecidableEq V]

def helps : List Bytes := ["help", "--help", "-h"].map bytes

/-- Directly behind a command, a token is bound as its first argument. -/
def Reached (cmd : Command V F) (token : Bytes) : Prop :=
  ∀ (stof : Bytes → Option F) (app : App V F) first others position rest store,
    position.command = cmd → app.select first others = some (position, token :: rest) →
    first = token ∨ first ∉ helps →
    app.parse stof (first :: others) store =
      (bindCommand stof cmd (token :: rest) store).map (Prod.mk position)

/-- Binding arguments does not end in a help page. -/
theorem bindCommand_ne_help {stof : Bytes → Option F} {args : List Bytes} {store : V → Value F} :
    bindCommand stof cmd args store ≠ .error (.exit [] 0) := by
  rw [bindCommand_eq]
  cases assigned : assign stof (cmd.given args) store with
  | error failure =>
      rcases exception_of_assign assigned
      nofun
  | ok next =>
      cases judged : cmd.verdict args with
      | none => nofun
      | some failure =>
          rcases Command.exit_of_verdict judged with ⟨message, rfl⟩
          nofun

/-- A name is reached unless it asks for help and no subcommand has it. -/
theorem reached_iff {name : Bytes} (isName : IsName name) :
    Reached cmd name ↔ (name ∈ helps → (cmd.findSubcommand name).isSome = true) := by
  have notHelp : name ≠ bytes "help" := by
    rcases isName.head with ⟨rest, rfl⟩
    nofun
  constructor
  · intro reached isHelp
    by_contra noSub
    rw [Option.not_isSome_iff_eq_none] at noSub
    have selects : (⟨[], some ⟨[], cmd⟩⟩ : App V F).select name [] =
        some (⟨[], cmd⟩, [name]) := by
      simp [App.select, descend, noSub]
    have parsed := reached (fun _ => none) _ name [] _ [] (fun _ => .string []) rfl selects
      (Or.inl rfl)
    have asks : name = bytes "--help" ∨ name = bytes "-h" := by
      simpa [helps, notHelp] using isHelp
    rw [App.parse, if_neg notHelp, if_pos asks] at parsed
    exact bindCommand_ne_help (error_of_map parsed.symm)
  · intro subcommand stof app first others position rest store isCommand selects isFirst
    subst isCommand
    have noHelp : name ∉ helps := fun isHelp => by
      have isSome := subcommand isHelp
      rw [App.findSubcommand_of_select selects] at isSome
      cases isSome
    have first_noHelp : first ∉ helps := by
      rcases isFirst with rfl | notHelp
      · exact noHelp
      · exact notHelp
    simp only [helps, List.map_cons, List.map_nil, List.mem_cons, List.not_mem_nil, or_false,
      not_or] at noHelp first_noHelp
    rw [App.parse, if_neg first_noHelp.1, if_neg (not_or.mpr first_noHelp.2), selects]
    dsimp only
    rw [if_neg]
    rw [List.head?_cons, Option.some.injEq, Option.some.injEq, not_or]
    exact noHelp.2

end Behind

/-! ## Both names -/

/-- A declaration appends an option with the names of its specification. -/
theorem Command.options_addOption (cmd : Command V F) (full : String) (target : V)
    (fallback : Value F) (required : Bool) :
    ∃ opt, (cmd.addOption full target fallback required).options = cmd.options ++ [opt] ∧
      declaredNames (bytes full) = (opt.lname, opt.sname) ∧ opt.isFlag = false ∧
      opt.val = ⟨some target, fallback⟩ :=
  ⟨_, rfl, rfl, rfl, rfl⟩

theorem Command.options_addFlag (cmd : Command V F) (full : String) (target : V) :
    ∃ opt, (cmd.addFlag full target).options = cmd.options ++ [opt] ∧
      declaredNames (bytes full) = (opt.lname, opt.sname) ∧ opt.isFlag = true ∧
      opt.val = ⟨some target, .bool false⟩ :=
  ⟨_, rfl, rfl, rfl, rfl⟩

section Both

variable [DecidableEq V]

/-- A token sets an option, also directly behind the command. -/
structure Works (cmd : Command V F) (opt : CmdOption V F) (i : Nat) (token : Bytes) : Prop where
  binds : Binds cmd opt i token
  reached : Reached cmd token

/-- No option in front answers to a name, and it does not ask for help. -/
structure Free (cmd : Command V F) (earlier : List (CmdOption V F)) (name : Bytes) : Prop where
  unclaimed : ∀ other ∈ earlier, other.answers name = false
  noHelp : name ∈ helps → (cmd.findSubcommand name).isSome = true

/-- Both names of an option work exactly if both are kept and free. -/
theorem Command.works_iff {earlier later : List (CmdOption V F)} {opt : CmdOption V F}
    (options : cmd.options = earlier ++ opt :: later) (hasTarget : opt.val.target.isSome = true)
    {text a b : Bytes} (specifies : Specifies text a b)
    (declared : declaredNames text = (opt.lname, opt.sname)) :
    Works cmd opt earlier.length a ∧ Works cmd opt earlier.length b ↔
      Kept opt.isFlag a b ∧ Free cmd earlier a ∧ Free cmd earlier b := by
  have works_iff : ∀ {name}, IsName name → (Works cmd opt earlier.length name ↔
      opt.answers name = true ∧ (opt.isFlag = false → Detached name) ∧
        Free cmd earlier name) := by
    intro name isName
    constructor
    · intro works
      have binds := (binds_iff options hasTarget isName).mp works.binds
      exact ⟨binds.1, binds.2.2, binds.2.1, (reached_iff isName).mp works.reached⟩
    · rintro ⟨answers, detached, free⟩
      exact ⟨(binds_iff options hasTarget isName).mpr ⟨answers, free.unclaimed, detached⟩,
        (reached_iff isName).mpr free.noHelp⟩
  rw [works_iff specifies.names.1, works_iff specifies.names.2, ← kept_iff specifies declared]
  tauto

end Both

/-- A command with a long and a short name for a port. -/
def portStart : Command Nat Nat :=
  ((Command.mk (bytes "start") [] [] []).addOption "--name,-n" 0 (.string []) false).addOption
    "--port, -p" 1 (.int 8080) false

theorem port_works : ∃ opt, portStart.options[1]? = some opt ∧
    Works portStart opt 1 (bytes "--port") ∧ Works portStart opt 1 (bytes "-p") := by
  have specifies : Specifies (bytes "--port, -p") (bytes "--port") (bytes "-p") :=
    ⟨⟨.long (by decide) rfl, .short 0x70⟩, bytes "--port", bytes " -p", rfl,
      ⟨[], [], rfl, nofun, nofun⟩, ⟨[0x20], [], rfl, List.forall_mem_singleton.mpr rfl, nofun⟩⟩
  have noEquals : 0x3D ∉ bytes "--port" := by decide
  have plain : Plain (bytes "--port") :=
    ⟨by decide, rfl, fun hasEquals => absurd hasEquals noEquals⟩
  refine ⟨_, rfl, (@Command.works_iff _ _ portStart _ [_] [] _ rfl rfl _ _ _ specifies rfl).mpr
    ⟨.both plain (by decide) rfl rfl, ?_, ?_⟩⟩
  · exact ⟨List.forall_mem_singleton.mpr rfl, fun isHelp => absurd isHelp (by decide)⟩
  · exact ⟨List.forall_mem_singleton.mpr rfl, fun isHelp => absurd isHelp (by decide)⟩

/-- A command with two long names for one option. -/
def implStart : Command Nat Nat :=
  (Command.mk (bytes "start") [] [] []).addOption "--impl,--router" 0
    (.string (bytes "oatpp")) false

/-- The second long name is forgotten. -/
theorem router_not_works :
    Specifies (bytes "--impl,--router") (bytes "--impl") (bytes "--router") ∧
    (∃ opt, implStart.options = [opt] ∧
      declaredNames (bytes "--impl,--router") = (opt.lname, opt.sname) ∧
      ¬Works implStart opt 0 (bytes "--router")) ∧
    (⟨[implStart], none⟩ : App Nat Nat).parse (fun _ => none)
        (["start", "--router", "cpprest"].map bytes) (fun _ => .string []) =
      .error (.exit (bytes "Unknown option: --router") 1) := by
  have specifies : Specifies (bytes "--impl,--router") (bytes "--impl") (bytes "--router") :=
    ⟨⟨.long (by decide) rfl, .long (by decide) rfl⟩, bytes "--impl", bytes "--router", rfl,
      ⟨[], [], rfl, nofun, nofun⟩, ⟨[], [], rfl, nofun, nofun⟩⟩
  refine ⟨specifies, ⟨_, rfl, rfl, fun works => ?_⟩, rfl⟩
  have looped := works.binds.value rfl (fun _ => none) (bytes "cpprest") []
    ⟨fun _ => .string [], [], []⟩
  cases looped

end Cllama.Util
