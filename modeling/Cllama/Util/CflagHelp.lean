import Mathlib.Data.List.Nodup
import Cllama.Util.CflagCommands

/-!
# What the general help lists

The general help has a line for each command without subcommands, under the names that lead to it.
It goes down the tree on its own, apart from the parser, which goes down by the arguments.
-/

namespace Cllama.Util

open Cllama.Library

variable {V F : Type}

/-! ## The text -/

section Text

variable (describe : Position V F → Bytes)

/-- Blanks up to a column, two of them behind it. -/
def padding (column : Nat) (text : Bytes) : Bytes :=
  List.replicate (if column > text.length then column - text.length else 2) 0x20

/-- The line of a subcommand. -/
def subcommandLine (full : Bytes) (position : Position V F) : Bytes :=
  full ++ padding 24 full ++ describe position ++ [0x0A]

mutual

/-- `print_subcommands` -/
def printSubcommands (parents : List (Command V F)) (lead : Bytes) : Command V F → Bytes
  | .mk name options arguments subcommands =>
      printEach (.mk name options arguments subcommands :: parents) lead subcommands

/-- The loop over the subcommands. -/
def printEach (parents : List (Command V F)) (lead : Bytes) : List (Command V F) → Bytes
  | [] => []
  | s :: subcommands =>
      (if s.subcommands ≠ [] then printSubcommands parents (lead ++ s.name ++ [0x20]) s
        else subcommandLine describe (lead ++ s.name) ⟨parents, s⟩) ++
      printEach parents lead subcommands

end

/-- Whether a command at the top is the default. -/
def App.isDefault (app : App V F) (cmd : Command V F) : Bool :=
  app.default.any fun position => position.parents.isEmpty && cmd.name = position.command.name

/-- What `print_help` prints for a command at the top. -/
def App.printCommand (app : App V F) (cmd : Command V F) : Bytes :=
  if app.isDefault cmd then []
  else if cmd.subcommands ≠ [] then
    printSubcommands describe [] (bytes "  " ++ cmd.name ++ [0x20]) cmd
  else bytes "  " ++ cmd.name ++ padding 18 cmd.name ++ describe ⟨[], cmd⟩ ++ [0x0A]

/-- What stands above the commands. -/
def helpHeading (prog desc : Bytes) : Bytes :=
  bytes "Usage: " ++ prog ++ bytes " <command> [options]\n\n" ++ desc ++ bytes "\n\nCommands:\n"

/-- What stands below them, if there is a default. -/
def App.helpClosing (app : App V F) (prog : Bytes) : Bytes :=
  if app.default.isSome then
    bytes "\nUse '" ++ prog ++ bytes " <command> --help' for command-specific help.\n"
  else []

/-- `print_help` -/
def App.printHelp (app : App V F) (prog desc : Bytes) : Bytes :=
  helpHeading prog desc ++ app.commands.flatMap (app.printCommand describe) ++
    app.helpClosing prog

end Text

/-! ## The commands without subcommands -/

/-- What holds of a command if it holds of its subcommands holds of all commands. -/
@[elab_as_elim]
theorem Command.induct {motive : Command V F → Prop}
    (mk : ∀ name options arguments subcommands, (∀ sub ∈ subcommands, motive sub) →
      motive (.mk name options arguments subcommands)) (cmd : Command V F) : motive cmd := by
  induction cmd using Command.rec (motive_2 := fun cmds => ∀ cmd ∈ cmds, motive cmd) with
  | mk name options arguments subcommands below => exact mk _ _ _ _ below
  | nil sub isSub => cases isSub
  | cons cmd cmds first rest sub isSub =>
      rcases List.mem_cons.mp isSub with rfl | inRest
      · exact first
      · exact rest sub inRest

mutual

/-- The commands without subcommands at and below a position, with the names that lead to
them. -/
def leaves (parents : List (Command V F)) : Command V F → List (List Bytes × Position V F)
  | .mk name options arguments subcommands =>
      if subcommands = [] then [([], ⟨parents, .mk name options arguments subcommands⟩)]
      else leavesOf (.mk name options arguments subcommands :: parents) subcommands

def leavesOf (parents : List (Command V F)) :
    List (Command V F) → List (List Bytes × Position V F)
  | [] => []
  | sub :: subcommands =>
      (leaves parents sub).map (fun leaf => (sub.name :: leaf.1, leaf.2)) ++
        leavesOf parents subcommands

end

section Leaves

variable {parents : List (Command V F)} {cmd : Command V F}

theorem mem_leavesOf {subcommands : List (Command V F)} {path : List Bytes}
    {final : Position V F} :
    (path, final) ∈ leavesOf parents subcommands ↔
      ∃ sub ∈ subcommands, ∃ below, path = sub.name :: below ∧
        (below, final) ∈ leaves parents sub := by
  induction subcommands with
  | nil => simp [leavesOf]
  | cons first subcommands ih =>
      rw [leavesOf, List.mem_append, ih]
      simp [eq_comm, and_comm]

theorem leaves_of_subcommands (below : cmd.subcommands ≠ []) :
    leaves parents cmd = leavesOf (cmd :: parents) cmd.subcommands := by
  cases cmd with
  | mk name options arguments subcommands => exact if_neg below

theorem leaves_of_leaf (isLeaf : cmd.subcommands = []) :
    leaves parents cmd = [([], ⟨parents, cmd⟩)] := by
  cases cmd with
  | mk name options arguments subcommands => exact if_pos isLeaf

/-- A leaf below has names that lead to it. -/
theorem ne_nil_of_mem_leaves (below : cmd.subcommands ≠ []) {path : List Bytes}
    {final : Position V F} (isLeaf : (path, final) ∈ leaves parents cmd) : path ≠ [] := by
  rw [leaves_of_subcommands below, mem_leavesOf] at isLeaf
  rcases isLeaf with ⟨sub, -, rest, rfl, -⟩
  simp

/-- What is listed is what names lead to and has no subcommands. -/
theorem mem_leaves_iff {path : List Bytes} {final : Position V F} :
    (path, final) ∈ leaves parents cmd ↔
      Leads ⟨parents, cmd⟩ path final ∧ final.command.subcommands = [] := by
  constructor
  · intro isLeaf
    induction cmd using Command.induct generalizing parents path with
    | mk name options arguments subcommands ih =>
        by_cases below : subcommands = []
        · rw [leaves, if_pos below, List.mem_singleton, Prod.mk.injEq] at isLeaf
          rcases isLeaf with ⟨rfl, rfl⟩
          exact ⟨.here, below⟩
        · rw [leaves, if_neg below, mem_leavesOf] at isLeaf
          rcases isLeaf with ⟨sub, isSub, rest, rfl, isLeaf⟩
          have found := ih sub isSub isLeaf
          exact ⟨.down isSub found.1, found.2⟩
  · rintro ⟨leads, isLeaf⟩
    generalize start : (⟨parents, cmd⟩ : Position V F) = position at leads
    induction leads generalizing parents cmd with
    | here =>
        cases start
        rw [leaves_of_leaf isLeaf]
        exact List.mem_singleton_self _
    | down isSub leads ih =>
        cases start
        rw [leaves_of_subcommands (List.ne_nil_of_mem isSub), mem_leavesOf]
        exact ⟨_, isSub, _, rfl, ih isLeaf rfl⟩

/-- No names are listed twice. -/
theorem nodup_leavesOf {subcommands : List (Command V F)}
    (apart : subcommands.Pairwise fun sub other => sub.name ≠ other.name)
    (each : ∀ sub ∈ subcommands, ((leaves parents sub).map Prod.fst).Nodup) :
    ((leavesOf parents subcommands).map Prod.fst).Nodup := by
  induction subcommands with
  | nil => simp [leavesOf]
  | cons sub subcommands ih =>
      rw [List.pairwise_cons] at apart
      rw [List.forall_mem_cons] at each
      have first : ((leaves parents sub).map fun leaf => sub.name :: leaf.1).Nodup := by
        have listed := List.Nodup.map (@List.cons_injective _ sub.name) each.1
        rwa [List.map_map] at listed
      rw [leavesOf, List.map_append, List.map_map, List.nodup_append]
      refine ⟨first, ih apart.2 each.2, ?_⟩
      rintro path isFirst other isOther rfl
      rcases List.mem_map.mp isFirst with ⟨leaf, -, rfl⟩
      rcases List.mem_map.mp isOther with ⟨⟨path, final⟩, isLeaf, same⟩
      rcases mem_leavesOf.mp isLeaf with ⟨otherSub, isSub, below, rfl, -⟩
      exact apart.1 otherSub isSub (List.cons.inj same).1.symm

theorem nodup_leaves
    (siblings : ∀ other ∈ cmd.all,
      other.subcommands.Pairwise fun sub other => sub.name ≠ other.name) :
    ((leaves parents cmd).map Prod.fst).Nodup := by
  induction cmd using Command.induct generalizing parents with
  | mk name options arguments subcommands ih =>
      by_cases below : subcommands = []
      · rw [leaves, if_pos below]
        simp
      · rw [leaves, if_neg below]
        apply nodup_leavesOf (siblings _ (self_mem_all _))
        intro sub isSub
        apply ih sub isSub
        exact fun other isBelow => siblings other (mem_all_of_subcommand isSub isBelow)

/-- A leaf takes the words of its path and leaves the rest to be bound. -/
theorem descend_of_leads {position final : Position V F} {path : List Bytes}
    (leads : Leads position path final) (isLeaf : final.command.subcommands = [])
    (siblings : ∀ other ∈ position.command.all,
      other.subcommands.Pairwise fun sub other => sub.name ≠ other.name) (rest : List Bytes) :
    descend position.parents position.command (path ++ rest) = (final, rest) := by
  induction leads with
  | @here position =>
      cases rest with
      | nil => rfl
      | cons first rest =>
          rw [List.nil_append, descend, Command.findSubcommand, isLeaf]
          rfl
  | @down parents cmd sub names final isSub leads ih =>
      have found : cmd.findSubcommand sub.name = some sub :=
        find_name_eq (siblings cmd (self_mem_all cmd)) isSub
      rw [List.cons_append, descend, found]
      exact ih isLeaf fun other isBelow => siblings other (mem_all_of_subcommand isSub isBelow)

end Leaves

/-! ## What is printed -/

section Printed

variable (describe : Position V F → Bytes)

theorem intercalate_cons_of_ne_nil (sep text : Bytes) {texts : List Bytes} (more : texts ≠ []) :
    sep.intercalate (text :: texts) = text ++ (sep ++ sep.intercalate texts) := by
  cases texts with
  | nil => exact absurd rfl more
  | cons next texts =>
      rw [intercalate_cons, intercalate_cons, List.flatMap_cons, List.append_assoc]

/-- The line of a leaf below a command. -/
def leafLine (lead : Bytes) (leaf : List Bytes × Position V F) : Bytes :=
  subcommandLine describe (lead ++ [0x20].intercalate leaf.1) leaf.2

theorem printEach_eq {parents : List (Command V F)} {lead : Bytes}
    {subcommands : List (Command V F)}
    (each : ∀ sub ∈ subcommands, sub.subcommands ≠ [] → ∀ lead,
      printSubcommands describe parents lead sub =
        (leaves parents sub).flatMap (leafLine describe lead)) :
    printEach describe parents lead subcommands =
      (leavesOf parents subcommands).flatMap (leafLine describe lead) := by
  induction subcommands with
  | nil => rw [printEach, leavesOf, List.flatMap_nil]
  | cons sub subcommands ih =>
      rw [List.forall_mem_cons] at each
      rw [printEach, leavesOf, List.flatMap_append, List.flatMap_map, ih each.2]
      congr 1
      by_cases below : sub.subcommands = []
      · rw [if_neg (not_not.mpr below), leaves_of_leaf below, List.flatMap_singleton, leafLine]
        simp
      · rw [if_pos below, each.1 below]
        apply List.flatMap_congr
        rintro ⟨path, final⟩ isLeaf
        rw [leafLine, leafLine,
          intercalate_cons_of_ne_nil _ _ (ne_nil_of_mem_leaves below isLeaf)]
        simp

/-- The text under a command has a line for each leaf below it. -/
theorem printSubcommands_eq {parents : List (Command V F)} {cmd : Command V F}
    (below : cmd.subcommands ≠ []) (lead : Bytes) :
    printSubcommands describe parents lead cmd =
      (leaves parents cmd).flatMap (leafLine describe lead) := by
  induction cmd using Command.induct generalizing parents lead with
  | mk name options arguments subcommands ih =>
      rw [printSubcommands, leaves_of_subcommands below]
      exact printEach_eq describe fun sub isSub hasMore lead => ih sub isSub hasMore lead

/-- The line of a leaf in the general help. -/
def helpLine (leaf : List Bytes × Position V F) : Bytes :=
  match leaf.1 with
  | [name] => bytes "  " ++ name ++ padding 18 name ++ describe leaf.2 ++ [0x0A]
  | _ => leafLine describe (bytes "  ") leaf

/-- Whether names start with that of a default command at the top. -/
def App.AtDefault (app : App V F) (path : List Bytes) : Prop :=
  ∃ default, app.default = some default ∧ default.parents = [] ∧
    path.head? = some default.command.name

/-- The leaves of the commands at the top that are not the default. -/
def App.listed (app : App V F) : List (List Bytes × Position V F) :=
  leavesOf [] (app.commands.filter fun cmd => !app.isDefault cmd)

variable {app : App V F}

theorem App.isDefault_iff {cmd : Command V F} {below : List Bytes} :
    app.isDefault cmd = true ↔ app.AtDefault (cmd.name :: below) := by
  rw [App.isDefault, Option.any_eq_true, App.AtDefault]
  simp only [Bool.and_eq_true, List.isEmpty_iff, decide_eq_true_eq, List.head?_cons,
    Option.some.injEq]

theorem App.mem_listed_iff {path : List Bytes} {position : Position V F} :
    (path, position) ∈ app.listed ↔
      app.Names path position ∧ position.command.subcommands = [] ∧ ¬app.AtDefault path := by
  rw [App.listed, mem_leavesOf]
  constructor
  · rintro ⟨cmd, isListed, below, rfl, isLeaf⟩
    rw [List.mem_filter, Bool.not_eq_true'] at isListed
    rw [mem_leaves_iff] at isLeaf
    refine ⟨⟨cmd, isListed.1, rfl, isLeaf.1⟩, isLeaf.2, ?_⟩
    rw [← App.isDefault_iff, isListed.2]
    exact Bool.false_ne_true
  · rintro ⟨names, isLeaf, notDefault⟩
    cases path with
    | nil => cases names
    | cons name below =>
        rcases names with ⟨cmd, isTop, rfl, leads⟩
        rw [← App.isDefault_iff, Bool.not_eq_true] at notDefault
        refine ⟨cmd, ?_, below, rfl, mem_leaves_iff.mpr ⟨leads, isLeaf⟩⟩
        rw [List.mem_filter, notDefault]
        exact ⟨isTop, rfl⟩

theorem App.printCommand_eq (cmd : Command V F) (notDefault : app.isDefault cmd = false) :
    app.printCommand describe cmd =
      ((leaves [] cmd).map fun leaf => (cmd.name :: leaf.1, leaf.2)).flatMap
        (helpLine describe) := by
  rw [App.printCommand, notDefault, if_neg Bool.false_ne_true, List.flatMap_map]
  by_cases below : cmd.subcommands = []
  · rw [if_neg (not_not.mpr below), leaves_of_leaf below, List.flatMap_singleton, helpLine]
  · rw [if_pos below, printSubcommands_eq describe below]
    apply List.flatMap_congr
    rintro ⟨path, final⟩ isLeaf
    have more := ne_nil_of_mem_leaves below isLeaf
    cases path with
    | nil => exact absurd rfl more
    | cons first path =>
        rw [helpLine, leafLine, leafLine, intercalate_cons_of_ne_nil _ _ more]
        simp

theorem App.printCommands_eq (commands : List (Command V F)) :
    commands.flatMap (app.printCommand describe) =
      (leavesOf [] (commands.filter fun cmd => !app.isDefault cmd)).flatMap
        (helpLine describe) := by
  induction commands with
  | nil => rfl
  | cons cmd commands ih =>
      rw [List.flatMap_cons, ih]
      cases isDefault : app.isDefault cmd with
      | true =>
          rw [List.filter_cons_of_neg (by simp [isDefault]), App.printCommand, if_pos isDefault,
            List.nil_append]
      | false =>
          rw [List.filter_cons_of_pos (by simp [isDefault]), leavesOf, List.flatMap_append,
            App.printCommand_eq describe cmd isDefault]

theorem App.nodup_listed (wellFormed : app.WellFormed) : (app.listed.map Prod.fst).Nodup := by
  apply nodup_leavesOf (wellFormed.top.filter _)
  intro cmd isListed
  apply nodup_leaves
  intro other below
  exact wellFormed.siblings other (mem_allOf (List.mem_of_mem_filter isListed) below)

/-- What a list of commands and the names that lead to them gives.  Typed in front of any arguments,
the names select the command, which leaves the arguments to be bound. -/
structure App.Lists (app : App V F) (listed : List (List Bytes × Position V F)) : Prop where
  nodup : (listed.map Prod.fst).Nodup
  leaves : ∀ path position, (path, position) ∈ listed ↔
    app.Names path position ∧ position.command.subcommands = [] ∧ ¬app.AtDefault path
  selects : ∀ path position, (path, position) ∈ listed →
    ∃ first below, path = first :: below ∧
      ∀ rest, app.select first (below ++ rest) = some (position, rest)

theorem App.lists_listed (wellFormed : app.WellFormed) : app.Lists app.listed where
  nodup := App.nodup_listed wellFormed
  leaves _ _ := App.mem_listed_iff
  selects path position isListed := by
    rcases App.mem_listed_iff.mp isListed with ⟨names, isLeaf, -⟩
    cases path with
    | nil => cases names
    | cons first below =>
        rcases names with ⟨cmd, isTop, rfl, leads⟩
        refine ⟨cmd.name, below, rfl, fun rest => ?_⟩
        rw [App.select, find_name_eq wellFormed.top isTop]
        exact congrArg some (descend_of_leads leads isLeaf
          (fun other isBelow => wellFormed.siblings other (mem_allOf isTop isBelow)) rest)

theorem App.printHelp_eq (prog desc : Bytes) :
    app.printHelp describe prog desc =
      helpHeading prog desc ++ app.listed.flatMap (helpLine describe) ++ app.helpClosing prog := by
  rw [App.printHelp, App.printCommands_eq, App.listed]

end Printed

/-- There is one line. -/
example : sample.listed.map Prod.fst = [[bytes "serve", bytes "start"]] := by decide

end Cllama.Util
