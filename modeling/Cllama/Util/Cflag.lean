import Cllama.Library.Decimal

/-!
# The command line parser

An application declares a tree of commands, each with options and positional arguments,
and says into which variables their values go.  Parsing follows command names as far as it
can and then binds what is left.  It ends in a command, in an exit of the process, or in an
exception of a conversion.
-/

namespace Cllama.Util

open Cllama.Library

variable {V F : Type}

/-! ## Values -/

/-- What a variable holds. -/
inductive Value (F : Type) where
  | string (text : Bytes)
  | int (number : Int)
  | float (number : F)
  | bool (truth : Bool)
  deriving DecidableEq

/-- The variable in which a value is stored, unless the pointer to it is null, and the
fallback, whose type is that of the value. -/
structure TypedValue (V F : Type) where
  target : Option V
  fallback : Value F

/-- The end of a parse that returns no command. -/
inductive Failure where
  | exit (message : Bytes) (code : Nat)
  | exception
  deriving DecidableEq

/-- The value for a text; none is an exception. -/
def TypedValue.convert (stof : Bytes → Option F) (value : TypedValue V F) (raw : Bytes) :
    Option (Value F) :=
  match value.fallback with
  | .string _ => some (.string raw)
  | .int _ => (Decimal.stoiInt raw).map .int
  | .float _ => (stof raw).map .float
  | .bool _ => some (.bool true)

/-- The constructor, which gives the variable the fallback. -/
def TypedValue.declare [DecidableEq V] (store : V → Value F) (value : TypedValue V F) :
    V → Value F :=
  match value.target with
  | none => store
  | some var => Function.update store var value.fallback

def TypedValue.set [DecidableEq V] (stof : Bytes → Option F) (value : TypedValue V F)
    (raw : Bytes) (store : V → Value F) : Except Failure (V → Value F) :=
  match value.target with
  | none => .ok store
  | some var =>
      match value.convert stof raw with
      | none => .error .exception
      | some converted => .ok (Function.update store var converted)

/-! ## Options and commands -/

/-- An option; `add_flag` makes flags of Boolean values only. -/
structure CmdOption (V F : Type) where
  lname : Bytes
  sname : Option UInt8
  isFlag : Bool
  required : Bool
  val : TypedValue V F
  flag_fallback : isFlag = true → val.fallback = .bool false

namespace CmdOption

variable (opt : CmdOption V F)

/-- The short name as it is written. -/
def short (c : UInt8) : Bytes := [0x2D, c]

/-- `names`, as an error shows them. -/
def shown : Bytes :=
  match opt.sname with
  | some c => short c ++ bytes ", " ++ opt.lname
  | none => opt.lname

def «match» (arg : Bytes) : Bool :=
  arg = opt.lname || opt.sname.any fun c => arg = short c

end CmdOption

structure Argument (V F : Type) where
  name : Bytes
  required : Bool
  val : TypedValue V F

inductive Command (V F : Type) where
  | mk (name : Bytes) (options : List (CmdOption V F)) (arguments : List (Argument V F))
      (subcommands : List (Command V F))

namespace Command

def name : Command V F → Bytes
  | .mk name _ _ _ => name

def options : Command V F → List (CmdOption V F)
  | .mk _ options _ _ => options

def arguments : Command V F → List (Argument V F)
  | .mk _ _ arguments _ => arguments

def subcommands : Command V F → List (Command V F)
  | .mk _ _ _ subcommands => subcommands

variable (cmd : Command V F)

def findSubcommand (name : Bytes) : Option (Command V F) :=
  cmd.subcommands.find? (·.name = name)

/-- The first option with a name, and its position. -/
def findOption (arg : Bytes) : Option (CmdOption V F × Nat) :=
  cmd.options.zipIdx.find? (·.1.match arg)

/-- The first option with a short name, and its position. -/
def findShort (c : UInt8) : Option (CmdOption V F × Nat) :=
  cmd.options.zipIdx.find? (·.1.sname = some c)

/-- The values of a command in the order of their declaration. -/
def ownValues : List (TypedValue V F) :=
  cmd.options.map CmdOption.val ++ cmd.arguments.map Argument.val

mutual

/-- A command and those below it. -/
def all : Command V F → List (Command V F)
  | .mk name options arguments subcommands =>
      .mk name options arguments subcommands :: allOf subcommands

def allOf : List (Command V F) → List (Command V F)
  | [] => []
  | cmd :: cmds => all cmd ++ allOf cmds

end

end Command

/-- A command with the commands above it, the nearest first. -/
structure Position (V F : Type) where
  parents : List (Command V F)
  command : Command V F

/-- `full_name` of a command under its parents. -/
def fullName : List (Command V F) → Command V F → Bytes
  | [], cmd => cmd.name
  | parent :: parents, cmd =>
      if parent.name ≠ [] then fullName parents parent ++ [0x20] ++ cmd.name else cmd.name

def Position.fullName (position : Position V F) : Bytes :=
  Util.fullName position.parents position.command

/-! ## Declarations -/

/-- `trim` -/
def trim (s : Bytes) : Bytes :=
  ((s.dropWhile Decimal.isSpace).reverse.dropWhile Decimal.isSpace).reverse

/-- The names that a declaration gives: of two, the first one with a dash is the long one. -/
def declaredNames (full : Bytes) : Bytes × Option UInt8 :=
  if 0x2C ∈ full then
    let first := trim (full.takeWhile (· ≠ 0x2C))
    let second := trim ((full.dropWhile (· ≠ 0x2C)).drop 1)
    let sname :=
      match first, second with
      | [0x2D, c], _ => some c
      | _, [0x2D, c] => some c
      | _, _ => none
    (if first.head? = some 0x2D then first else second, sname)
  else (full, none)

namespace Command

variable (cmd : Command V F)

def addOption (full : String) (target : V) (fallback : Value F) (required : Bool) :
    Command V F :=
  let (lname, sname) := declaredNames (bytes full)
  .mk cmd.name
    (cmd.options ++ [⟨lname, sname, false, required, ⟨some target, fallback⟩, nofun⟩])
    cmd.arguments cmd.subcommands

def addFlag (full : String) (target : V) : Command V F :=
  let (lname, sname) := declaredNames (bytes full)
  .mk cmd.name
    (cmd.options ++ [⟨lname, sname, true, false, ⟨some target, .bool false⟩, fun _ => rfl⟩])
    cmd.arguments cmd.subcommands

def addArgument (name : String) (target : V) (fallback : Value F) : Command V F :=
  .mk cmd.name cmd.options
    (cmd.arguments ++ [⟨bytes name, true, ⟨some target, fallback⟩⟩]) cmd.subcommands

def addSubcommand (sub : Command V F) : Command V F :=
  .mk cmd.name cmd.options cmd.arguments (cmd.subcommands ++ [sub])

end Command

/-! ## Parsing -/

/-- The shapes of arguments: a long option, perhaps with a value attached to it; a short
option; anything else. -/
inductive Shape where
  | long (name : Bytes) (attached : Option Bytes)
  | short (c : UInt8)
  | plain

def shape (a : Bytes) : Shape :=
  if a.length > 2 ∧ a.take 2 = [0x2D, 0x2D] then
    let name := a.takeWhile (· ≠ 0x3D)
    .long name (if 0x3D ∈ a then some (a.drop (name.length + 1)) else none)
  else
    match a with
    | [0x2D, c] => .short c
    | _ => .plain

/-- The variables, the positions of the options that have been set, and the positional
arguments so far. -/
structure Bound (V F : Type) where
  store : V → Value F
  wasSet : List Nat
  positional : List Bytes

section Parse

variable [DecidableEq V] (stof : Bytes → Option F)

/-- Set the option at a position. -/
def Bound.set (found : CmdOption V F × Nat) (raw : Bytes) (bound : Bound V F) :
    Except Failure (Bound V F) :=
  match found.1.val.set stof raw bound.store with
  | .error failure => .error failure
  | .ok store =>
      .ok { bound with
        store := store
        wasSet := if found.1.val.target.isSome then found.2 :: bound.wasSet else bound.wasSet }

/-- The loop over options and positional arguments. -/
def parseLoop (cmd : Command V F) : List Bytes → Bound V F → Except Failure (Bound V F)
  | [], bound => .ok bound
  | a :: args, bound =>
      match shape a with
      | .long name attached =>
          match cmd.findOption name with
          | none => .error (.exit (bytes "Unknown option: " ++ a) 1)
          | some found =>
              if found.1.isFlag then do
                parseLoop cmd args (← bound.set stof found (bytes "true"))
              else
                match attached with
                | some raw => do parseLoop cmd args (← bound.set stof found raw)
                | none =>
                    match args with
                    | raw :: args => do parseLoop cmd args (← bound.set stof found raw)
                    | [] => .error (.exit (bytes "Option " ++ name ++ bytes " requires a value") 1)
      | .short c =>
          match cmd.findShort c with
          | none => .error (.exit (bytes "Unknown option: " ++ a) 1)
          | some found =>
              if found.1.isFlag then do
                parseLoop cmd args (← bound.set stof found (bytes "true"))
              else
                match args with
                | raw :: args => do parseLoop cmd args (← bound.set stof found raw)
                | [] => .error (.exit (bytes "Option " ++ a ++ bytes " requires a value") 1)
      | .plain => parseLoop cmd args { bound with positional := bound.positional ++ [a] }

/-- Bind positional arguments; those that are too many are ignored. -/
def bindArguments (cmd : Command V F) (positional : List Bytes) (store : V → Value F) :
    Except Failure (V → Value F) :=
  (cmd.arguments.zip positional).foldlM (fun store pair => pair.1.val.set stof pair.2 store) store

/-- Parse the arguments of a command. -/
def bindCommand (cmd : Command V F) (args : List Bytes) (store : V → Value F) :
    Except Failure (V → Value F) := do
  let bound ← parseLoop stof cmd args ⟨store, [], []⟩
  let store ← bindArguments stof cmd bound.positional bound.store
  match (cmd.arguments.drop bound.positional.length).find? (·.required) with
  | some arg => .error (.exit (bytes "Missing required argument: " ++ arg.name) 1)
  | none =>
      match cmd.options.zipIdx.find? (fun opt => opt.1.required && opt.2 ∉ bound.wasSet) with
      | some opt => .error (.exit (bytes "Missing required option: " ++ opt.1.shown) 1)
      | none => .ok store

/-- Descend into subcommands. -/
def descend : List (Command V F) → Command V F → List Bytes → Position V F × List Bytes
  | parents, cmd, [] => (⟨parents, cmd⟩, [])
  | parents, cmd, a :: args =>
      match cmd.findSubcommand a with
      | some sub => descend (cmd :: parents) sub args
      | none => (⟨parents, cmd⟩, a :: args)

end Parse

structure App (V F : Type) where
  commands : List (Command V F)
  default : Option (Position V F)

namespace App

variable [DecidableEq V] (stof : Bytes → Option F) (app : App V F)

/-- The commands that are declared. -/
def all : List (Command V F) :=
  Command.allOf app.commands ++ app.default.toList.flatMap (·.command.all)

/-- The variables once everything is declared. -/
def declare (store : V → Value F) : V → Value F :=
  (app.all.flatMap Command.ownValues).foldl TypedValue.declare store

/-- `help`, perhaps of a command. -/
def help : List Bytes → Failure
  | [] => .exit [] 0
  | name :: names =>
      if app.commands.any (·.name = name) then .exit [] 0
      else
        .exit (bytes "Unknown command: " ++ name ++ names.flatMap fun name => 0x20 :: name) 0

/-- The command that arguments name, and the arguments behind its name. -/
def select (first : Bytes) (args : List Bytes) : Option (Position V F × List Bytes) :=
  match app.commands.find? (·.name = first) with
  | some cmd => some (descend [] cmd args)
  | none => app.default.map fun position =>
      descend position.parents position.command (first :: args)

/-- Parse the arguments behind the name of the program. -/
def parse (args : List Bytes) (store : V → Value F) :
    Except Failure (Position V F × (V → Value F)) :=
  match args with
  | [] =>
      match app.default with
      | some position => .ok (position, store)
      | none => .error (.exit [] 0)
  | first :: args =>
      if first = bytes "help" then .error (app.help args)
      else if first = bytes "--help" ∨ first = bytes "-h" then .error (.exit [] 0)
      else
        match app.select first args with
        | none => .error (.exit (bytes "Unknown command: " ++ first) 1)
        | some (position, args) =>
            if args.head? = some (bytes "--help") ∨ args.head? = some (bytes "-h") then
              .error (.exit [] 0)
            else (bindCommand stof position.command args store).map fun store => (position, store)

end App

end Cllama.Util
