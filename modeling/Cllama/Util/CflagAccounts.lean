import Cllama.Util.CflagCommands
import Cllama.Util.CflagSpelling

/-!
# What becomes of every argument

If a parse returns a command, its arguments fall into the names that lead to the command and
pieces, and the variables hold what the pieces say.  Arguments are ignored in two places only:
positional arguments that are too many, and what is attached to a flag.  No declaration is
assumed to be sensible here: options may share names, and commands too.
-/

namespace Cllama.Util

open Cllama.Library

variable {V F : Type}

namespace Spelled

/-- The name ends at the first equals sign of its argument. -/
def Cut : Spelled V F → Prop
  | .attached _ name _ | .attachedFlag _ name _ => Dashed name
  | _ => True

/-- The value that a piece sets, and its text.  Of text that is attached to a flag nothing is
said. -/
def Sets : Spelled V F → List (TypedValue V F × Bytes) → Prop
  | .separate opt _ raw, sets | .attached opt _ raw, sets => sets = [(opt.val, raw)]
  | .flag opt _, sets => sets = [(opt.val, bytes "true")]
  | .attachedFlag opt _ _, sets => ∀ set ∈ sets, set.1 = opt.val
  | .positional _, sets => sets = []

end Spelled

/-- An item that is read is a piece in front of what follows it. -/
theorem Reads.exists_piece {cmd : Command V F} {args rest : List Bytes} {item : Item V F}
    (reads : Reads cmd args item rest) :
    ∃ piece : Spelled V F, piece.item = item ∧ args = piece.tokens ++ rest ∧
      piece.Belongs cmd ∧ piece.Cut ∧ piece.Sets item.pair?.toList := by
  cases reads with
  | @separate opt raw _ isOption valued _ _ =>
      exact ⟨.separate opt opt.lname raw, rfl, rfl, ⟨isOption, valued, List.mem_cons_self⟩, trivial,
        rfl⟩
  | @attached opt name raw _ isOption valued isName dashed =>
      exact ⟨.attached opt name raw, rfl, rfl, ⟨isOption, valued, isName⟩, dashed, rfl⟩
  | @short opt c raw _ isOption valued hasShort =>
      exact ⟨.separate opt (CmdOption.short c) raw, rfl, rfl,
        ⟨isOption, valued, short_mem_names hasShort⟩, trivial, rfl⟩
  | @flag opt _ isOption isFlag _ _ =>
      exact ⟨.flag opt opt.lname, rfl, rfl, ⟨isOption, isFlag, List.mem_cons_self⟩, trivial, rfl⟩
  | @attachedFlag opt name raw _ isOption isFlag isName dashed =>
      refine ⟨.attachedFlag opt name raw, rfl, rfl, ⟨isOption, isFlag, isName⟩, dashed, ?_⟩
      simp [Spelled.Sets, Item.pair?]
  | @shortFlag opt c _ isOption isFlag hasShort =>
      exact ⟨.flag opt (CmdOption.short c), rfl, rfl,
        ⟨isOption, isFlag, short_mem_names hasShort⟩, trivial, rfl⟩
  | @positional token _ notLong notShort =>
      have plain := shape_of_positional notLong notShort
      exact ⟨.positional token, rfl, rfl, by simp [Spelled.Belongs, plain], trivial, rfl⟩

/-- The pieces of a command line. -/
theorem Written.exists_pieces {cmd : Command V F} {args : List Bytes} {items : List (Item V F)}
    (written : Written cmd args items) :
    ∃ pieces : List (Spelled V F), pieces.map Spelled.item = items ∧
      args = pieces.flatMap Spelled.tokens ∧ (∀ piece ∈ pieces, piece.Belongs cmd ∧ piece.Cut) ∧
      List.Forall₂ Spelled.Sets pieces (items.map fun item => item.pair?.toList) := by
  induction written with
  | nil => exact ⟨[], rfl, rfl, by simp, .nil⟩
  | cons reads _ ih =>
      rcases reads.exists_piece with ⟨piece, rfl, cut, belongs, isCut, sets⟩
      rcases ih with ⟨pieces, rfl, rest, all, allSet⟩
      refine ⟨piece :: pieces, rfl, ?_, ?_, .cons sets allSet⟩
      · rw [List.flatMap_cons, cut, rest]
      · rw [List.forall_mem_cons]
        exact ⟨⟨belongs, isCut⟩, all⟩

/-- The descent follows names down the tree. -/
theorem descend_leads (parents : List (Command V F)) (cmd : Command V F) (args : List Bytes) :
    ∃ path, args = path ++ (descend parents cmd args).2 ∧
      Leads ⟨parents, cmd⟩ path (descend parents cmd args).1 := by
  induction args generalizing parents cmd with
  | nil => exact ⟨[], rfl, .here⟩
  | cons a args ih =>
      rw [descend]
      cases found : cmd.findSubcommand a with
      | none => exact ⟨[], rfl, .here⟩
      | some sub =>
          rcases findSubcommand_some found with ⟨isSub, rfl⟩
          rcases ih (cmd :: parents) sub with ⟨path, cut, leads⟩
          exact ⟨sub.name :: path, congrArg (sub.name :: ·) cut, .down isSub leads⟩

/-- A command is reached by its names from the top, or by names below the default. -/
def App.Reaches (app : App V F) (path : List Bytes) (position : Position V F) : Prop :=
  app.Names path position ∨ ∃ default, app.default = some default ∧ Leads default path position

section Parse

variable [DecidableEq V] {stof : Bytes → Option F} {app : App V F}

omit [DecidableEq V] in
theorem App.select_reaches {first : Bytes} {args rest : List Bytes} {position : Position V F}
    (selected : app.select first args = some (position, rest)) :
    ∃ path, first :: args = path ++ rest ∧ app.Reaches path position := by
  rw [App.select] at selected
  cases found : app.commands.find? (·.name = first) with
  | some cmd =>
      rw [found, Option.some.injEq] at selected
      have isName : cmd.name = first := by simpa using List.find?_some found
      rcases descend_leads [] cmd args with ⟨path, cut, leads⟩
      rw [selected] at cut leads
      exact ⟨first :: path, congrArg (first :: ·) cut,
        Or.inl ⟨cmd, List.mem_of_find?_eq_some found, isName, leads⟩⟩
  | none =>
      rw [found] at selected
      rcases Option.map_eq_some_iff.mp selected with ⟨default, isDefault, descended⟩
      rcases descend_leads default.parents default.command (first :: args) with ⟨path, cut, leads⟩
      rw [descended] at cut leads
      exact ⟨path, cut, Or.inr ⟨default, isDefault, leads⟩⟩

/-- The arguments are names of commands and pieces; what the pieces set, and the positional
ones among them as far as arguments are declared, is what the variables hold. -/
structure Accounts (stof : Bytes → Option F) (app : App V F) (args : List Bytes)
    (store : V → Value F) (position : Position V F) (next : V → Value F) (path : List Bytes)
    (pieces : List (Spelled V F)) (sets : List (List (TypedValue V F × Bytes))) : Prop where
  tokens : args = path ++ pieces.flatMap Spelled.tokens
  reaches : app.Reaches path position
  belongs : ∀ piece ∈ pieces, piece.Belongs position.command ∧ piece.Cut
  meaning : List.Forall₂ Spelled.Sets pieces sets
  assigned : assign stof
    (sets.flatten ++
      argumentPairs position.command.arguments (positionals (pieces.map Spelled.item))) store =
    .ok next

/-- Whatever the declarations, a parse that returns a command accounts for all arguments. -/
theorem App.exists_accounts {args : List Bytes} {store next : V → Value F}
    {position : Position V F} (parsed : app.parse stof args store = .ok (position, next)) :
    ∃ path pieces sets, Accounts stof app args store position next path pieces sets := by
  by_cases given : args = []
  · subst given
    rw [App.parse] at parsed
    cases isDefault : app.default with
    | none =>
        rw [isDefault] at parsed
        cases parsed
    | some default =>
        rw [isDefault] at parsed
        cases parsed
        refine ⟨[], [], [], rfl, Or.inr ⟨_, isDefault, .here⟩, by simp, .nil, ?_⟩
        simp [assign, argumentPairs, positionals]
        rfl
  · rcases App.parse_bound given parsed with ⟨first, others, rest, rfl, selected, bound⟩
    rcases App.select_reaches selected with ⟨path, cut, reaches⟩
    rcases bindCommand_written bound with ⟨items, written, assigned⟩
    rcases written.exists_pieces with ⟨pieces, rfl, tokens, belongs, meaning⟩
    refine ⟨path, pieces, _, ?_, reaches, belongs, meaning, ?_⟩
    · rw [cut, tokens]
    · rw [← List.flatMap_def, ← List.filterMap_eq_flatMap_toList]
      exact assigned

/-- A word that names no command ends the parse unless there is a default command. -/
theorem App.parse_unknown {first : Bytes} {args : List Bytes} {store : V → Value F}
    (noDefault : app.default = none) (unknown : ∀ cmd ∈ app.commands, cmd.name ≠ first)
    (noHelp : first ≠ bytes "help" ∧ first ≠ bytes "--help" ∧ first ≠ bytes "-h") :
    app.parse stof (first :: args) store =
      .error (.exit (bytes "Unknown command: " ++ first) 1) := by
  have notFound : app.commands.find? (·.name = first) = none := by
    simpa using unknown
  rw [App.parse, if_neg noHelp.1, if_neg (not_or.mpr noHelp.2), App.select, notFound, noDefault]
  rfl

/-- Whatever is declared: if a parse returns a command, all arguments are accounted for; and a
word that names no command is an error unless there is a default command. -/
theorem App.parse_accounts (stof : Bytes → Option F) (app : App V F) :
    (∀ args store position next, app.parse stof args store = .ok (position, next) →
      ∃ path pieces sets, Accounts stof app args store position next path pieces sets) ∧
    ∀ first args store, app.default = none → (∀ cmd ∈ app.commands, cmd.name ≠ first) →
      first ≠ bytes "help" ∧ first ≠ bytes "--help" ∧ first ≠ bytes "-h" →
      app.parse stof (first :: args) store =
        .error (.exit (bytes "Unknown command: " ++ first) 1) :=
  ⟨fun _ _ _ _ parsed => App.exists_accounts parsed,
    fun _ _ _ noDefault unknown noHelp => App.parse_unknown noDefault unknown noHelp⟩

end Parse

theorem sample_accounts : ∃ position next,
    sample.parse (fun _ => none) (["serve", "start", "--name=a=b", "x", "y"].map bytes)
      (sample.declare fun _ => .string []) = .ok (position, next) ∧
    ∃ path pieces sets, Accounts (fun _ => none) sample
      (["serve", "start", "--name=a=b", "x", "y"].map bytes)
      (sample.declare fun _ => .string []) position next path pieces sets :=
  ⟨_, _, rfl, (App.parse_accounts (fun _ => none) sample).1 _ _ _ _ rfl⟩

/-- A port without a space, a flag that is given a value, one file too many, and an unknown
command: all are accepted. -/
theorem sample_ignores :
    (∃ position next, sample.parse (fun _ => none)
        (["serve", "start", "-p80", "--daemon=false", "x.gguf"].map bytes)
        (sample.declare fun _ => .string []) = .ok (position, next) ∧
      position.fullName = bytes "serve start" ∧ next 1 = .int 8080 ∧ next 2 = .bool true ∧
      next 3 = .string (bytes "-p80")) ∧
    ∃ position next, sample.parse (fun _ => none) (["srv", "start"].map bytes)
        (sample.declare fun _ => .string []) = .ok (position, next) ∧
      position.fullName = bytes "_global" :=
  ⟨⟨_, _, rfl, rfl, rfl, rfl, rfl⟩, ⟨_, _, rfl, rfl⟩⟩

end Cllama.Util
