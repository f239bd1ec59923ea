import Cllama.Util.CflagBinding

/-!
# How a command line is spelled

A command line that is parsed falls into pieces, one for each item, each made of one or two
arguments.  Unlike an item, a piece keeps the name of the option and says whether the value is
an argument of its own.
-/

namespace Cllama.Util

open Cllama.Library

variable {V F : Type}

/-- The arguments of one item. -/
inductive Spelled (V F : Type) where
  | separate (opt : CmdOption V F) (name raw : Bytes)
  | attached (opt : CmdOption V F) (name raw : Bytes)
  | flag (opt : CmdOption V F) (name : Bytes)
  | attachedFlag (opt : CmdOption V F) (name raw : Bytes)
  | positional (token : Bytes)

namespace Spelled

def item : Spelled V F → Item V F
  | .separate opt _ raw => .value opt raw
  | .attached opt _ raw => .value opt raw
  | .flag opt _ => .flag opt
  | .attachedFlag opt _ _ => .flag opt
  | .positional token => .positional token

def tokens : Spelled V F → List Bytes
  | .separate _ name raw => [name, raw]
  | .attached _ name raw => [name ++ 0x3D :: raw]
  | .flag _ name => [name]
  | .attachedFlag _ name raw => [name ++ 0x3D :: raw]
  | .positional token => [token]

/-- The option is one of the command, under one of its names. -/
def Belongs (cmd : Command V F) : Spelled V F → Prop
  | .separate opt name _ | .attached opt name _ =>
      opt ∈ cmd.options ∧ opt.isFlag = false ∧ name ∈ opt.names
  | .flag opt name | .attachedFlag opt name _ =>
      opt ∈ cmd.options ∧ opt.isFlag = true ∧ name ∈ opt.names
  | .positional token => shape token matches .plain

end Spelled

/-- The pieces of a command line, up to an argument that is not accepted. -/
def Command.spell (cmd : Command V F) : List Bytes → List (Spelled V F)
  | [] => []
  | a :: args =>
      match shape a with
      | .long name attached =>
          match cmd.options.find? (·.match name), attached with
          | none, _ => []
          | some opt, some raw =>
              if opt.isFlag then .attachedFlag opt name raw :: cmd.spell args
              else .attached opt name raw :: cmd.spell args
          | some opt, none =>
              if opt.isFlag then .flag opt name :: cmd.spell args
              else
                match args with
                | raw :: args => .separate opt name raw :: cmd.spell args
                | [] => []
      | .short c =>
          match cmd.options.find? (·.sname = some c) with
          | none => []
          | some opt =>
              if opt.isFlag then .flag opt a :: cmd.spell args
              else
                match args with
                | raw :: args => .separate opt a raw :: cmd.spell args
                | [] => []
      | .plain => .positional a :: cmd.spell args

/-- An item that is read first has the first piece. -/
theorem Reads.spell {cmd : Command V F} (distinct : cmd.Distinct) {args rest : List Bytes}
    {item : Item V F} (reads : Reads cmd args item rest) :
    ∃ piece : Spelled V F, piece.item = item ∧ args = piece.tokens ++ rest ∧
      piece.Belongs cmd ∧ cmd.spell args = piece :: cmd.spell rest := by
  cases reads with
  | @separate opt raw _ isOption valued dashed long =>
      refine ⟨.separate opt opt.lname raw, rfl, rfl, ⟨isOption, valued, List.mem_cons_self⟩, ?_⟩
      simp [Command.spell, shape_of_dashed dashed long,
        distinct.find_match isOption List.mem_cons_self, valued]
  | @attached opt name raw _ isOption valued isName dashed =>
      refine ⟨.attached opt name raw, rfl, rfl, ⟨isOption, valued, isName⟩, ?_⟩
      simp [Command.spell, shape_of_attached dashed, distinct.find_match isOption isName, valued]
  | @short opt c raw _ isOption valued hasShort =>
      refine ⟨.separate opt (CmdOption.short c) raw, rfl, rfl,
        ⟨isOption, valued, short_mem_names hasShort⟩, ?_⟩
      simp [Command.spell, CmdOption.short, shape, distinct.find_short isOption hasShort, valued]
  | @flag opt _ isOption isFlag dashed long =>
      refine ⟨.flag opt opt.lname, rfl, rfl, ⟨isOption, isFlag, List.mem_cons_self⟩, ?_⟩
      simp [Command.spell, shape_of_dashed dashed long,
        distinct.find_match isOption List.mem_cons_self, isFlag]
  | @attachedFlag opt name raw _ isOption isFlag isName dashed =>
      refine ⟨.attachedFlag opt name raw, rfl, rfl, ⟨isOption, isFlag, isName⟩, ?_⟩
      simp [Command.spell, shape_of_attached dashed, distinct.find_match isOption isName, isFlag]
  | @shortFlag opt c _ isOption isFlag hasShort =>
      refine ⟨.flag opt (CmdOption.short c), rfl, rfl,
        ⟨isOption, isFlag, short_mem_names hasShort⟩, ?_⟩
      simp [Command.spell, CmdOption.short, shape, distinct.find_short isOption hasShort, isFlag]
  | @positional token _ notLong notShort =>
      have plain := shape_of_positional notLong notShort
      refine ⟨.positional token, rfl, rfl, by simp [Spelled.Belongs, plain], ?_⟩
      simp [Command.spell, plain]

/-- The pieces of a command line that is read. -/
structure Spells (cmd : Command V F) (args : List Bytes) (items : List (Item V F)) : Prop where
  items : (cmd.spell args).map Spelled.item = items
  tokens : (cmd.spell args).flatMap Spelled.tokens = args
  belongs : ∀ piece ∈ cmd.spell args, piece.Belongs cmd

theorem Written.spells {cmd : Command V F} (distinct : cmd.Distinct) {args : List Bytes}
    {items : List (Item V F)} (written : Written cmd args items) : Spells cmd args items := by
  induction written with
  | nil => exact ⟨rfl, rfl, List.forall_mem_nil _⟩
  | cons reads _ ih =>
      rcases reads.spell distinct with ⟨piece, rfl, cut, belongs, spelled⟩
      constructor
      · rw [spelled, List.map_cons, ih.items]
      · rw [spelled, List.flatMap_cons, ih.tokens, cut]
      · rw [spelled]
        exact List.forall_mem_cons.mpr ⟨belongs, ih.belongs⟩

end Cllama.Util
