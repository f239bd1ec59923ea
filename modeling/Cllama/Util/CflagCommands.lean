import Mathlib.Data.List.Infix
import Cllama.Util.CflagBinding

/-!
# Which command a command line selects

Command names lead from the top of an application down its tree.  A parse follows the
longest prefix of the arguments that does so, falls back to the default command without
one, and binds the arguments behind the prefix.
-/

namespace Cllama.Util

open Cllama.Library

variable {V F : Type}

/-! ## Names of commands -/

/-- Names lead from a command down to one below it. -/
inductive Leads : Position V F → List Bytes → Position V F → Prop where
  | here {position : Position V F} : Leads position [] position
  | down {parents : List (Command V F)} {cmd sub : Command V F} {names : List Bytes}
      {position : Position V F} :
      sub ∈ cmd.subcommands → Leads ⟨cmd :: parents, sub⟩ names position →
      Leads ⟨parents, cmd⟩ (sub.name :: names) position

/-- Names lead from the top of an application down to a command. -/
def App.Names (app : App V F) : List Bytes → Position V F → Prop
  | [], _ => False
  | name :: names, position =>
      ∃ cmd ∈ app.commands, cmd.name = name ∧ Leads ⟨[], cmd⟩ names position

/-- The path is the longest prefix of the arguments that names a command, and that command
is selected under the path as its full name; or no prefix does, and the default is. -/
def App.Selects (app : App V F) (args path : List Bytes) (position : Position V F) : Prop :=
  (app.Names path position ∧
      (∀ longer other, app.Names longer other → longer <+: args → longer.length ≤ path.length) ∧
      position.fullName = [0x20].intercalate path) ∨
    path = [] ∧ app.default = some position ∧
      ∀ longer other, app.Names longer other → ¬longer <+: args

/-- The names of siblings are not empty and pairwise distinct, the default has no
subcommands, the options and values of a command are distinct, and a variable has one
fallback. -/
structure App.WellFormed (app : App V F) : Prop where
  named : ∀ cmd ∈ Command.allOf app.commands, cmd.name ≠ []
  top : app.commands.Pairwise fun cmd other => cmd.name ≠ other.name
  siblings : ∀ cmd ∈ Command.allOf app.commands,
    cmd.subcommands.Pairwise fun sub other => sub.name ≠ other.name
  default : ∀ position, app.default = some position → position.command.subcommands = []
  distinct : ∀ cmd ∈ app.all, cmd.Distinct
  shared : ∃ fallback : V → Value F, ∀ cmd ∈ app.all, ∀ value ∈ cmd.ownValues,
    ∀ var, value.target = some var → value.fallback = fallback var

theorem self_mem_all (cmd : Command V F) : cmd ∈ cmd.all := by
  cases cmd
  rw [Command.all]
  exact List.mem_cons_self

theorem mem_allOf {cmds : List (Command V F)} {cmd other : Command V F} (isMember : cmd ∈ cmds)
    (below : other ∈ cmd.all) : other ∈ Command.allOf cmds := by
  induction cmds with
  | nil => cases isMember
  | cons first cmds ih =>
      rw [Command.allOf, List.mem_append]
      rcases List.mem_cons.mp isMember with rfl | inTail
      · exact Or.inl below
      · exact Or.inr (ih inTail)

theorem mem_all_of_subcommand {cmd sub other : Command V F} (isSub : sub ∈ cmd.subcommands)
    (below : other ∈ sub.all) : other ∈ cmd.all := by
  cases cmd with
  | mk name options arguments subcommands =>
      rw [Command.all]
      exact List.mem_cons_of_mem _ (mem_allOf isSub below)

/-- What names lead to is in the tree. -/
theorem Leads.mem_all {position final : Position V F} {names : List Bytes}
    (leads : Leads position names final) : final.command ∈ position.command.all := by
  induction leads with
  | here => exact self_mem_all _
  | down isSub _ ih => exact mem_all_of_subcommand isSub ih

theorem find_name_eq {cmds : List (Command V F)}
    (apart : cmds.Pairwise fun cmd other => cmd.name ≠ other.name) {cmd : Command V F}
    (isMember : cmd ∈ cmds) : cmds.find? (·.name = cmd.name) = some cmd := by
  apply find_of_unique isMember (decide_eq_true rfl)
  intro other isOther sameName
  exact eq_of_pairwise apart isOther isMember (fun apart => apart (of_decide_eq_true sameName))
    (fun apart => apart (of_decide_eq_true sameName).symm)

theorem findSubcommand_some {cmd sub : Command V F} {name : Bytes}
    (found : cmd.findSubcommand name = some sub) : sub ∈ cmd.subcommands ∧ sub.name = name := by
  rw [Command.findSubcommand] at found
  exact ⟨List.mem_of_find?_eq_some found, by simpa using List.find?_some found⟩

/-- The descent follows the longest prefix of the arguments that leads down. -/
theorem descend_longest (parents : List (Command V F)) (cmd : Command V F) (args : List Bytes)
    (siblings : ∀ other ∈ cmd.all,
      other.subcommands.Pairwise fun sub other => sub.name ≠ other.name) :
    ∃ path, args = path ++ (descend parents cmd args).2 ∧
      Leads ⟨parents, cmd⟩ path (descend parents cmd args).1 ∧
      ∀ longer other, Leads ⟨parents, cmd⟩ longer other → longer <+: args →
        longer.length ≤ path.length := by
  induction args generalizing parents cmd with
  | nil =>
      refine ⟨[], rfl, .here, fun longer other _ isPrefix => ?_⟩
      rw [List.prefix_nil.mp isPrefix]
  | cons a args ih =>
      rw [descend]
      cases found : cmd.findSubcommand a with
      | none =>
          refine ⟨[], rfl, .here, fun longer other leads isPrefix => ?_⟩
          cases leads with
          | here => exact le_rfl
          | down isSub leads =>
              have same := (List.cons_prefix_cons.mp isPrefix).1
              have differs := List.find?_eq_none.mp found _ isSub
              exact absurd (decide_eq_true same) differs
      | some sub =>
          rcases findSubcommand_some found with ⟨isSub, rfl⟩
          rcases ih (cmd :: parents) sub
            (fun other below => siblings other (mem_all_of_subcommand isSub below)) with
            ⟨path, cut, leads, longest⟩
          refine ⟨sub.name :: path, congrArg (sub.name :: ·) cut, .down isSub leads, ?_⟩
          intro longer other leads isPrefix
          cases leads with
          | here => exact Nat.zero_le _
          | @down _ _ other_sub names _ isOther leads =>
              rcases List.cons_prefix_cons.mp isPrefix with ⟨sameName, restPrefix⟩
              have same := find_name_eq (siblings cmd (self_mem_all cmd)) isOther
              rw [Command.findSubcommand, ← sameName, same] at found
              cases found
              exact Nat.succ_le_succ (longest _ _ leads restPrefix)

/-- A full name is the names that lead to a command, joined by spaces. -/
theorem Leads.fullName {position final : Position V F} {names : List Bytes}
    (named : ∀ cmd ∈ position.command.all, cmd.name ≠ []) (leads : Leads position names final) :
    final.fullName = position.fullName ++ names.flatMap fun name => [0x20] ++ name := by
  induction leads with
  | here => exact (List.append_nil _).symm
  | @down parents cmd sub names final isSub _ ih =>
      rw [ih fun other below => named other (mem_all_of_subcommand isSub below)]
      rw [Position.fullName, Util.fullName, if_pos (named cmd (self_mem_all cmd))]
      simp [Position.fullName]

/-! ## What a parse binds -/

/-- What a command line sets in the variables of a command. -/
structure Binding (stof : Bytes → Option F) (cmd : Command V F) (args : List Bytes)
    (items : List (Item V F)) (store : V → Value F) : Prop where
  written : Written cmd args items
  only : ∀ others, Written cmd args others → others = items
  options : ∀ opt ∈ cmd.options, opt.isFlag = false → ∀ var, opt.val.target = some var →
    opt.val.last stof (given opt items) opt.val.fallback = some (store var)
  flags : ∀ opt ∈ cmd.options, opt.isFlag = true → ∀ var, opt.val.target = some var →
    store var = .bool (decide (given opt items ≠ []))
  arguments : ∀ (i : Nat) (arg : Argument V F), cmd.arguments[i]? = some arg →
    ∀ var, arg.val.target = some var →
      arg.val.last stof (positionals items)[i]?.toList arg.val.fallback = some (store var)

section Parse

variable [DecidableEq V] {stof : Bytes → Option F}

/-- A variable that has been declared holds its fallback. -/
theorem declare_at {values : List (TypedValue V F)} {fallback : V → Value F}
    (shared : ∀ value ∈ values, ∀ var, value.target = some var → value.fallback = fallback var)
    {store : V → Value F} {var : V}
    (declared : store var = fallback var ∨ ∃ value ∈ values, value.target = some var) :
    values.foldl TypedValue.declare store var = fallback var := by
  induction values generalizing store with
  | nil =>
      rcases declared with isDeclared | ⟨value, isMember, _⟩
      · exact isDeclared
      · cases isMember
  | cons value values ih =>
      rw [List.forall_mem_cons] at shared
      rw [List.foldl_cons]
      apply ih shared.2
      by_cases hasTarget : value.target = some var
      · left
        rw [TypedValue.declare, hasTarget]
        exact (Function.update_self _ _ _).trans (shared.1 var hasTarget)
      · have unchanged : value.declare store var = store var := by
          rw [TypedValue.declare]
          cases isTarget : value.target with
          | none => rfl
          | some target =>
              apply Function.update_of_ne
              rintro rfl
              exact hasTarget isTarget
        rw [unchanged]
        rcases declared with isDeclared | ⟨other, isMember, isTarget⟩
        · exact Or.inl isDeclared
        · rcases List.mem_cons.mp isMember with rfl | inTail
          · exact absurd isTarget hasTarget
          · exact Or.inr ⟨other, inTail, isTarget⟩

theorem bindCommand_binding {cmd : Command V F} (distinct : cmd.Distinct) {args : List Bytes}
    {store next : V → Value F}
    (fallbacks : ∀ value ∈ cmd.ownValues, ∀ var, value.target = some var →
      store var = value.fallback)
    (parsed : bindCommand stof cmd args store = .ok next) :
    ∃ items, Binding stof cmd args items next := by
  rcases bindCommand_written parsed with ⟨items, written, assigned⟩
  have optionAt : ∀ opt ∈ cmd.options, ∀ var, opt.val.target = some var →
      opt.val.last stof (given opt items) opt.val.fallback = some (next var) := by
    intro opt isOption var hasTarget
    have isValue := List.mem_append_left (cmd.arguments.map Argument.val)
      (List.mem_map_of_mem (f := CmdOption.val) isOption)
    have held := bound_at distinct written assigned isValue hasTarget
    rw [textsAt_option distinct written isOption hasTarget,
      textsAt_argumentPairs_other fun arg isArgument =>
        distinct.option_argument isOption isArgument hasTarget, List.append_nil,
      fallbacks _ isValue var hasTarget] at held
    exact held
  refine ⟨items, written, fun others => Written.unique distinct written, ?_, ?_, ?_⟩
  · exact fun opt isOption _ var hasTarget => optionAt opt isOption var hasTarget
  · intro opt isOption isFlag var hasTarget
    have held := optionAt opt isOption var hasTarget
    have isBool := opt.flag_fallback isFlag
    rw [TypedValue.last] at held
    cases isLast : (given opt items).getLast? with
    | none =>
        rw [isLast] at held
        rw [← Option.some.inj held, isBool, List.getLast?_eq_none_iff.mp isLast]
        rfl
    | some raw =>
        rw [isLast] at held
        unfold TypedValue.convert at held
        rw [isBool] at held
        have isGiven : given opt items ≠ [] := by
          intro empty
          rw [empty] at isLast
          cases isLast
        rw [decide_eq_true isGiven]
        exact (Option.some.inj held).symm
  · intro i arg isArgument var hasTarget
    have isMember := List.mem_of_getElem? isArgument
    have isValue := List.mem_append_right (cmd.options.map CmdOption.val)
      (List.mem_map_of_mem (f := Argument.val) isMember)
    have apart := (List.pairwise_append.mp distinct.targets).2.1
    rw [List.pairwise_map] at apart
    have held := bound_at distinct written assigned isValue hasTarget
    rw [textsAt_argument distinct written isMember hasTarget,
      textsAt_argumentPairs apart isArgument hasTarget, List.nil_append,
      fallbacks _ isValue var hasTarget] at held
    exact held

variable {app : App V F}

omit [DecidableEq V] in
/-- Names that arguments start with start with the name of a command at the top. -/
theorem App.Names.top {longer : List Bytes} {other : Position V F} (names : app.Names longer other)
    {first : Bytes} {args : List Bytes} (isPrefix : longer <+: first :: args) :
    ∃ cmd ∈ app.commands, cmd.name = first ∧
      ∃ below, longer = first :: below ∧ below <+: args ∧ Leads ⟨[], cmd⟩ below other := by
  cases longer with
  | nil => cases names
  | cons name below =>
      rcases names with ⟨cmd, isTop, rfl, leads⟩
      rcases List.cons_prefix_cons.mp isPrefix with ⟨rfl, restPrefix⟩
      exact ⟨cmd, isTop, rfl, below, rfl, restPrefix, leads⟩

omit [DecidableEq V] in
/-- Under a command at the top, the descent selects. -/
theorem App.descend_selects (wellFormed : app.WellFormed) {cmd : Command V F}
    (isTop : cmd ∈ app.commands) (args : List Bytes) :
    ∃ path, cmd.name :: args = path ++ (descend [] cmd args).2 ∧
      app.Selects (cmd.name :: args) path (descend [] cmd args).1 ∧
      (descend [] cmd args).1.command ∈ app.all := by
  have inTree : ∀ other ∈ cmd.all, other ∈ Command.allOf app.commands :=
    fun other below => mem_allOf isTop below
  rcases descend_longest [] cmd args
    (fun other below => wellFormed.siblings other (inTree other below)) with
    ⟨path, cut, leads, longest⟩
  refine ⟨cmd.name :: path, congrArg (cmd.name :: ·) cut,
    Or.inl ⟨⟨cmd, isTop, rfl, leads⟩, ?_, ?_⟩,
    List.mem_append_left _ (inTree _ leads.mem_all)⟩
  · intro longer other names isPrefix
    rcases names.top isPrefix with
      ⟨otherCmd, isOther, otherName, below, rfl, restPrefix, otherLeads⟩
    have same := find_name_eq wellFormed.top isOther
    rw [otherName, find_name_eq wellFormed.top isTop] at same
    cases same
    exact Nat.succ_le_succ (longest _ _ otherLeads restPrefix)
  · rw [leads.fullName fun other below => wellFormed.named other (inTree other below),
      intercalate_cons]
    rfl

omit [DecidableEq V] in
/-- Without a command at the top, the default is selected. -/
theorem App.default_selects (wellFormed : app.WellFormed) {default : Position V F}
    (isDefault : app.default = some default) {first : Bytes} (args : List Bytes)
    (noTop : ∀ cmd ∈ app.commands, cmd.name ≠ first) :
    descend default.parents default.command (first :: args) = (default, first :: args) ∧
      app.Selects (first :: args) [] default ∧ default.command ∈ app.all := by
  refine ⟨?_, Or.inr ⟨rfl, isDefault, ?_⟩, ?_⟩
  · rw [descend, Command.findSubcommand, wellFormed.default default isDefault]
    rfl
  · intro longer other names isPrefix
    rcases names.top isPrefix with ⟨cmd, isTop, isName, -⟩
    exact noTop cmd isTop isName
  · rw [App.all, isDefault]
    apply List.mem_append_right
    rw [Option.toList_some, List.flatMap_singleton]
    exact self_mem_all _

omit [DecidableEq V] in
/-- The command that is selected, and what is left for it. -/
theorem App.select_selects (wellFormed : app.WellFormed) {first : Bytes} {args rest : List Bytes}
    {position : Position V F} (selected : app.select first args = some (position, rest)) :
    ∃ path, first :: args = path ++ rest ∧ app.Selects (first :: args) path position ∧
      position.command ∈ app.all := by
  rw [App.select] at selected
  cases found : app.commands.find? (·.name = first) with
  | some cmd =>
      rw [found] at selected
      have isName : cmd.name = first := by simpa using List.find?_some found
      subst isName
      have selects := App.descend_selects wellFormed (List.mem_of_find?_eq_some found) args
      rwa [Option.some.inj selected] at selects
  | none =>
      rw [found] at selected
      have noTop : ∀ cmd ∈ app.commands, cmd.name ≠ first := by
        intro cmd isTop isName
        exact absurd (decide_eq_true isName) (List.find?_eq_none.mp found cmd isTop)
      cases isDefault : app.default with
      | none =>
          rw [isDefault] at selected
          cases selected
      | some default =>
          rcases App.default_selects wellFormed isDefault args noTop with
            ⟨stays, selects, inTree⟩
          rw [isDefault, Option.map_some, stays] at selected
          cases selected
          exact ⟨[], rfl, selects, inTree⟩

omit [DecidableEq V] in
theorem App.all_values_shared (wellFormed : app.WellFormed) :
    ∃ fallback : V → Value F, ∀ value ∈ app.all.flatMap Command.ownValues, ∀ var,
      value.target = some var → value.fallback = fallback var := by
  rcases wellFormed.shared with ⟨fallback, shared⟩
  refine ⟨fallback, fun value isValue => ?_⟩
  rcases List.mem_flatMap.mp isValue with ⟨cmd, isCommand, isOwn⟩
  exact shared cmd isCommand value isOwn

/-- Before a command is parsed, its variables hold their fallbacks. -/
theorem App.declare_fallback (wellFormed : app.WellFormed) {cmd : Command V F}
    (inTree : cmd ∈ app.all) {store : V → Value F} {value : TypedValue V F}
    (isOwn : value ∈ cmd.ownValues) {var : V} (hasTarget : value.target = some var) :
    app.declare store var = value.fallback := by
  rcases App.all_values_shared wellFormed with ⟨fallback, shared⟩
  have isValue : value ∈ app.all.flatMap Command.ownValues :=
    List.mem_flatMap.mpr ⟨cmd, inTree, isOwn⟩
  rw [shared value isValue var hasTarget]
  exact declare_at shared (Or.inr ⟨value, isValue, hasTarget⟩)

/-- A parse that returns a command has selected it, and has bound what was left for it. -/
theorem App.parse_bound {args : List Bytes} (given : args ≠ []) {store next : V → Value F}
    {position : Position V F} (parsed : app.parse stof args store = .ok (position, next)) :
    ∃ first others rest, args = first :: others ∧
      app.select first others = some (position, rest) ∧
      bindCommand stof position.command rest store = .ok next := by
  cases args with
  | nil => exact absurd rfl given
  | cons first others =>
      rw [App.parse] at parsed
      split at parsed
      · cases parsed
      split at parsed
      · cases parsed
      split at parsed
      · cases parsed
      next found rest selected =>
        split at parsed
        · cases parsed
        cases bound : bindCommand stof found.command rest store with
        | error failure =>
            rw [bound] at parsed
            cases parsed
        | ok final =>
            rw [bound] at parsed
            cases parsed
            exact ⟨first, others, rest, rfl, selected, bound⟩

/-- A parse that returns a command selects it by the longest prefix of the arguments that
names one, and binds what follows the prefix. -/
theorem App.parse_binding (wellFormed : app.WellFormed) {args : List Bytes} (given : args ≠ [])
    {store next : V → Value F} {position : Position V F}
    (parsed : app.parse stof args (app.declare store) = .ok (position, next)) :
    ∃ path rest items, args = path ++ rest ∧ app.Selects args path position ∧
      Binding stof position.command rest items next := by
  rcases App.parse_bound given parsed with ⟨first, others, rest, rfl, selected, bound⟩
  rcases App.select_selects wellFormed selected with ⟨path, cut, selects, inTree⟩
  have fallbacks : ∀ value ∈ position.command.ownValues, ∀ var,
      value.target = some var → app.declare store var = value.fallback :=
    fun value isOwn var hasTarget => App.declare_fallback wellFormed inTree isOwn hasTarget
  rcases bindCommand_binding (wellFormed.distinct _ inTree) fallbacks bound with
    ⟨items, binding⟩
  exact ⟨path, rest, items, cut, selects, binding⟩

end Parse

/-- A server that takes a name, a port and a flag, and a file. -/
def sample : App Nat Nat where
  commands := [.addSubcommand (.mk (bytes "serve") [] [] [])
    ((((Command.mk (bytes "start") [] [] []).addOption "--name,-n" 0 (.string []) false).addOption
      "--port,-p" 1 (.int 8080) false).addFlag "--daemon,-d" 2
      |>.addArgument "file" 3 (.string []))]
  default := some ⟨[], .mk (bytes "_global") [] [] []⟩

theorem sample_wellFormed : sample.WellFormed where
  named := by decide
  top := by decide
  siblings := by decide
  default := by
    rintro position ⟨⟩
    rfl
  distinct cmd isMember := by
    constructor
    · revert cmd
      decide
    · revert cmd
      decide
  shared := ⟨fun | 1 => .int 8080 | 2 => .bool false | _ => .string [], by decide⟩

/-- A name with an equals sign, a port that is given twice, a flag and a file. -/
theorem sample_binding : ∃ position next,
    sample.parse (fun _ => none)
      (["serve", "start", "--name=a=b", "-p", "80", "x.gguf", "--port", "90", "-d"].map bytes)
      (sample.declare fun _ => .string []) = .ok (position, next) ∧
    ∃ path rest items,
      ["serve", "start", "--name=a=b", "-p", "80", "x.gguf", "--port", "90", "-d"].map bytes =
        path ++ rest ∧
      sample.Selects
        (["serve", "start", "--name=a=b", "-p", "80", "x.gguf", "--port", "90", "-d"].map bytes)
        path position ∧
      Binding (fun _ => none) position.command rest items next :=
  ⟨_, _, rfl, App.parse_binding sample_wellFormed (by decide) rfl⟩

end Cllama.Util
