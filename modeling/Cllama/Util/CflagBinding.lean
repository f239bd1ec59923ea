import Mathlib.Data.List.TakeWhile
import Cllama.Util.Cflag

/-!
# What a parsed command line binds

The arguments behind the name of a command are a sequence of items: options with their
values, flags and positional arguments, each written in one of a few forms.  A parse that
returns a command has read such a sequence, and every variable of the command holds what
the last item for it says, or its fallback.
-/

namespace Cllama.Util

open Cllama.Library

variable {V F : Type}

/-! ## Items -/

/-- All names of an option. -/
def CmdOption.names (opt : CmdOption V F) : List Bytes :=
  opt.lname :: opt.sname.toList.map CmdOption.short

/-- A name that starts with two dashes and has no equals sign in it. -/
def Dashed (name : Bytes) : Prop :=
  name.take 2 = [0x2D, 0x2D] ∧ 0x3D ∉ name

/-- What arguments say: an option with its value, a flag, or a positional argument. -/
inductive Item (V F : Type) where
  | value (opt : CmdOption V F) (raw : Bytes)
  | flag (opt : CmdOption V F)
  | positional (token : Bytes)

/-- The first item of a command line, and what follows it: `--name value`, `--name=value` and
`-n value` for an option, `--name` and `-n` for a flag, which ignores an attached value; and
anything that does not look like an option. -/
inductive Reads (cmd : Command V F) : List Bytes → Item V F → List Bytes → Prop where
  | separate {opt : CmdOption V F} {raw : Bytes} {args : List Bytes} :
      opt ∈ cmd.options → opt.isFlag = false → Dashed opt.lname → 2 < opt.lname.length →
      Reads cmd (opt.lname :: raw :: args) (.value opt raw) args
  | attached {opt : CmdOption V F} {name raw : Bytes} {args : List Bytes} :
      opt ∈ cmd.options → opt.isFlag = false → name ∈ opt.names → Dashed name →
      Reads cmd ((name ++ 0x3D :: raw) :: args) (.value opt raw) args
  | short {opt : CmdOption V F} {c : UInt8} {raw : Bytes} {args : List Bytes} :
      opt ∈ cmd.options → opt.isFlag = false → opt.sname = some c →
      Reads cmd (CmdOption.short c :: raw :: args) (.value opt raw) args
  | flag {opt : CmdOption V F} {args : List Bytes} :
      opt ∈ cmd.options → opt.isFlag = true → Dashed opt.lname → 2 < opt.lname.length →
      Reads cmd (opt.lname :: args) (.flag opt) args
  | attachedFlag {opt : CmdOption V F} {name raw : Bytes} {args : List Bytes} :
      opt ∈ cmd.options → opt.isFlag = true → name ∈ opt.names → Dashed name →
      Reads cmd ((name ++ 0x3D :: raw) :: args) (.flag opt) args
  | shortFlag {opt : CmdOption V F} {c : UInt8} {args : List Bytes} :
      opt ∈ cmd.options → opt.isFlag = true → opt.sname = some c →
      Reads cmd (CmdOption.short c :: args) (.flag opt) args
  | positional {token : Bytes} {args : List Bytes} :
      ¬(2 < token.length ∧ token.take 2 = [0x2D, 0x2D]) →
      ¬(token.length = 2 ∧ token.head? = some 0x2D) →
      Reads cmd (token :: args) (.positional token) args

/-- The items of a command line. -/
inductive Written (cmd : Command V F) : List Bytes → List (Item V F) → Prop where
  | nil : Written cmd [] []
  | cons {args rest : List Bytes} {item : Item V F} {items : List (Item V F)} :
      Reads cmd args item rest → Written cmd rest items → Written cmd args (item :: items)

/-- The value that an item sets, and the text it is converted from. -/
def Item.pair? : Item V F → Option (TypedValue V F × Bytes)
  | .value opt raw => some (opt.val, raw)
  | .flag opt => some (opt.val, bytes "true")
  | .positional _ => none

def Item.positional? : Item V F → Option Bytes
  | .positional token => some token
  | _ => none

def Item.option? : Item V F → Option (CmdOption V F)
  | .value opt _ => some opt
  | .flag opt => some opt
  | .positional _ => none

/-- The positional arguments of a command line. -/
def positionals (items : List (Item V F)) : List Bytes :=
  items.filterMap Item.positional?

/-! ## Shapes of arguments -/

theorem mem_zipIdx_find {options : List (CmdOption V F)} {p : CmdOption V F × Nat → Bool}
    {found : CmdOption V F × Nat} (isFound : options.zipIdx.find? p = some found) :
    found.1 ∈ options ∧ p found = true :=
  ⟨List.fst_mem_of_mem_zipIdx (List.mem_of_find?_eq_some isFound), List.find?_some isFound⟩

theorem match_iff {opt : CmdOption V F} {arg : Bytes} :
    opt.match arg = true ↔ arg ∈ opt.names := by
  rw [CmdOption.match, CmdOption.names, Bool.or_eq_true, decide_eq_true_eq, List.mem_cons]
  apply or_congr_right
  cases opt.sname <;> simp

theorem lname_of_long {opt : CmdOption V F} {name : Bytes} (isName : name ∈ opt.names)
    (long : 2 < name.length) : opt.lname = name := by
  rcases List.mem_cons.mp isName with isLong | isShort
  · exact isLong.symm
  · rcases List.mem_map.mp isShort with ⟨c, -, rfl⟩
    exact absurd long (Nat.lt_irrefl 2)

/-- A text is cut at the first octet of a kind. -/
theorem cut_of_mem {c : UInt8} {a : Bytes} (isMember : c ∈ a) :
    a = a.takeWhile (· ≠ c) ++ c :: a.drop ((a.takeWhile (· ≠ c)).length + 1) := by
  induction a with
  | nil => cases isMember
  | cons x a ih =>
      by_cases same : x = c
      · subst same
        simp
      · have rest := ih ((List.mem_cons.mp isMember).resolve_left (Ne.symm same))
        simp only [List.takeWhile_cons, same, ne_eq, not_false_eq_true, decide_true, if_true,
          List.length_cons, List.drop_succ_cons, List.cons_append]
        rw [← rest]

theorem shape_long {a name : Bytes} {attached : Option Bytes}
    (isLong : shape a = .long name attached) :
    2 < a.length ∧ Dashed name ∧ (attached = none → a = name) ∧
      ∀ raw, attached = some raw → a = name ++ 0x3D :: raw := by
  unfold shape at isLong
  split at isLong
  next long =>
    rw [Shape.long.injEq] at isLong
    rcases isLong with ⟨rfl, rfl⟩
    refine ⟨long.1, ⟨?_, fun isMember => ?_⟩, fun without => ?_, fun raw hasRaw => ?_⟩
    · rcases a with _ | ⟨x, _ | ⟨y, a⟩⟩
      · cases long.2
      · cases long.2
      · cases long.2
        rfl
    · simpa using List.mem_takeWhile_imp isMember
    · split at without
      · cases without
      next absent => exact (takeWhile_ne_eq_self absent).symm
    · split at hasRaw
      next present =>
        cases hasRaw
        exact cut_of_mem present
      · cases hasRaw
  next =>
    split at isLong <;> cases isLong

theorem shape_short {a : Bytes} {c : UInt8} (isShort : shape a = .short c) :
    a = CmdOption.short c := by
  unfold shape at isShort
  split at isShort
  · cases isShort
  · split at isShort
    · cases isShort
      rfl
    · cases isShort

theorem shape_plain {a : Bytes} (isPlain : shape a = .plain) :
    ¬(2 < a.length ∧ a.take 2 = [0x2D, 0x2D]) ∧
      ¬(a.length = 2 ∧ a.head? = some 0x2D) := by
  unfold shape at isPlain
  split at isPlain
  · cases isPlain
  next notLong =>
    refine ⟨notLong, fun twoDashed => ?_⟩
    rcases a with _ | ⟨x, _ | ⟨y, _ | ⟨z, a⟩⟩⟩
    · cases twoDashed.1
    · cases twoDashed.1
    · cases twoDashed.2
      cases isPlain
    · cases twoDashed.1

/-! ## The loop -/

section Loop

variable [DecidableEq V] (stof : Bytes → Option F) {cmd : Command V F}

/-- Set values one after another. -/
def assign (pairs : List (TypedValue V F × Bytes)) (store : V → Value F) :
    Except Failure (V → Value F) :=
  pairs.foldlM (fun store pair => pair.1.set stof pair.2 store) store

variable {stof}

theorem filterMap_cons_eq {α β : Type} (f : α → Option β) (a : α) (as : List α) :
    (a :: as).filterMap f = (f a).toList ++ as.filterMap f := by
  rw [List.filterMap_cons]
  cases f a <;> rfl

theorem bind_eq_ok {ε α β : Type} {x : Except ε α} {f : α → Except ε β} {b : β}
    (isOk : x >>= f = .ok b) : ∃ a, x = .ok a ∧ f a = .ok b := by
  cases x with
  | error e => cases isOk
  | ok a => exact ⟨a, rfl, isOk⟩

theorem assign_append {first second : List (TypedValue V F × Bytes)}
    {store middle next : V → Value F} (left : assign stof first store = .ok middle)
    (right : assign stof second middle = .ok next) :
    assign stof (first ++ second) store = .ok next := by
  rw [assign] at left right ⊢
  rw [List.foldlM_append, left]
  exact right

/-- What setting an option does to the variables and the positional arguments. -/
theorem Bound.set_eq_ok {found : CmdOption V F × Nat} {raw : Bytes} {bound next : Bound V F}
    (isSet : bound.set stof found raw = .ok next) :
    found.1.val.set stof raw bound.store = .ok next.store ∧
      next.positional = bound.positional := by
  unfold Bound.set at isSet
  split at isSet
  · cases isSet
  next stored =>
    cases isSet
    exact ⟨stored, rfl⟩

variable (stof cmd) in
/-- The loop takes the first item and goes on behind it. -/
def Takes (a : Bytes) (args : List Bytes) (bound next : Bound V F) : Prop :=
  ∃ item rest after, Reads cmd (a :: args) item rest ∧ rest.length ≤ args.length ∧
    assign stof item.pair?.toList bound.store = .ok after.store ∧
    after.positional = bound.positional ++ item.positional?.toList ∧
    parseLoop stof cmd rest after = .ok next

section Takes

variable {a : Bytes} {args : List Bytes} {bound next : Bound V F}

theorem takes_of_set {found : CmdOption V F × Nat} {item : Item V F} {raw : Bytes}
    {rest : List Bytes} (reads : Reads cmd (a :: args) item rest)
    (shorter : rest.length ≤ args.length) (hasPair : item.pair? = some (found.1.val, raw))
    (notPositional : item.positional? = none)
    (parsed : (do parseLoop stof cmd rest (← bound.set stof found raw)) = .ok next) :
    Takes stof cmd a args bound next := by
  rcases bind_eq_ok parsed with ⟨after, isSet, rest_parsed⟩
  have stored := Bound.set_eq_ok isSet
  refine ⟨item, rest, after, reads, shorter, ?_, ?_, rest_parsed⟩
  · rw [hasPair, Option.toList_some, assign, List.foldlM_cons, stored.1]
    rfl
  · rw [notPositional, stored.2, Option.toList_none, List.append_nil]

theorem takes_of_long {name : Bytes} {attached : Option Bytes}
    (isLong : shape a = .long name attached)
    (parsed : parseLoop stof cmd (a :: args) bound = .ok next) :
    Takes stof cmd a args bound next := by
  rcases shape_long isLong with ⟨long, dashed, without, cut⟩
  rw [parseLoop.eq_def] at parsed
  simp only [isLong] at parsed
  split at parsed
  · cases parsed
  next found isFound =>
    rcases mem_zipIdx_find isFound with ⟨member, matches_name⟩
    have isName := match_iff.mp matches_name
    split at parsed
    next isFlag =>
      cases attached with
      | none =>
          rcases without rfl
          have same := lname_of_long isName long
          subst same
          exact takes_of_set (.flag member isFlag dashed long) le_rfl rfl rfl parsed
      | some raw =>
          rcases cut raw rfl
          exact takes_of_set (.attachedFlag member isFlag isName dashed) le_rfl rfl rfl parsed
    next notFlag =>
      have valued := Bool.eq_false_iff.mpr notFlag
      cases attached with
      | none =>
          rcases without rfl
          cases args with
          | nil => cases parsed
          | cons raw args =>
              have same := lname_of_long isName long
              subst same
              exact takes_of_set (.separate member valued dashed long) (Nat.le_succ _) rfl rfl
                parsed
      | some raw =>
          rcases cut raw rfl
          exact takes_of_set (.attached member valued isName dashed) le_rfl rfl rfl parsed

theorem takes_of_short {c : UInt8} (isShort : shape a = .short c)
    (parsed : parseLoop stof cmd (a :: args) bound = .ok next) :
    Takes stof cmd a args bound next := by
  rw [parseLoop.eq_def] at parsed
  simp only [isShort] at parsed
  rcases shape_short isShort
  split at parsed
  · cases parsed
  next found isFound =>
    rcases mem_zipIdx_find isFound with ⟨member, isShortName⟩
    have sname := of_decide_eq_true isShortName
    split at parsed
    next isFlag => exact takes_of_set (.shortFlag member isFlag sname) le_rfl rfl rfl parsed
    next notFlag =>
      cases args with
      | nil => cases parsed
      | cons raw args =>
          exact takes_of_set (.short member (Bool.eq_false_iff.mpr notFlag) sname)
            (Nat.le_succ _) rfl rfl parsed

theorem takes_of_plain (isPlain : shape a = .plain)
    (parsed : parseLoop stof cmd (a :: args) bound = .ok next) :
    Takes stof cmd a args bound next := by
  have plain := shape_plain isPlain
  rw [parseLoop.eq_def] at parsed
  simp only [isPlain] at parsed
  exact ⟨.positional a, args, { bound with positional := bound.positional ++ [a] },
    .positional plain.1 plain.2, le_rfl, rfl, rfl, parsed⟩

/-- The loop takes one item after another. -/
theorem parseLoop_cons (parsed : parseLoop stof cmd (a :: args) bound = .ok next) :
    Takes stof cmd a args bound next := by
  cases isShape : shape a with
  | long name attached => exact takes_of_long isShape parsed
  | short c => exact takes_of_short isShape parsed
  | plain => exact takes_of_plain isShape parsed

end Takes

/-- The loop reads the items of a command line and sets their values in order. -/
theorem parseLoop_written {args : List Bytes} {bound next : Bound V F}
    (parsed : parseLoop stof cmd args bound = .ok next) :
    ∃ items, Written cmd args items ∧
      assign stof (items.filterMap Item.pair?) bound.store = .ok next.store ∧
      next.positional = bound.positional ++ positionals items := by
  induction length : args.length using Nat.strong_induction_on generalizing args bound with
  | _ length' ih =>
      cases args with
      | nil =>
          cases parsed
          exact ⟨[], .nil, rfl, (List.append_nil _).symm⟩
      | cons a args =>
          rcases parseLoop_cons parsed with
            ⟨item, rest, after, reads, shorter, stored, tokens, rest_parsed⟩
          have smaller : rest.length < length' := by
            rw [← length]
            exact Nat.lt_succ_of_le shorter
          rcases ih rest.length smaller rest_parsed rfl with ⟨items, written, assigned, all⟩
          refine ⟨item :: items, .cons reads written, ?_, ?_⟩
          · rw [filterMap_cons_eq]
            exact assign_append stored assigned
          · rw [all, tokens, positionals, positionals, filterMap_cons_eq, List.append_assoc]

end Loop

/-! ## One reading -/

/-- Two values do not store into one variable. -/
def TypedValue.Apart (value other : TypedValue V F) : Prop :=
  value.target.isSome = true → other.target ≠ value.target

instance [DecidableEq V] (value other : TypedValue V F) : Decidable (value.Apart other) :=
  inferInstanceAs (Decidable (_ → _))

theorem TypedValue.Apart.other {value other : TypedValue V F} (apart : value.Apart other) {var : V}
    (hasTarget : value.target = some var) : other.target ≠ some var := by
  rw [Apart, hasTarget] at apart
  exact apart rfl

/-- The options of a command have no name in common, and its values no variable. -/
structure Command.Distinct (cmd : Command V F) : Prop where
  names : cmd.options.Pairwise fun opt other => ∀ name ∈ opt.names, name ∉ other.names
  targets : cmd.ownValues.Pairwise TypedValue.Apart

theorem eq_of_pairwise {α : Type} {apart : α → α → Prop} {l : List α} {a b : α}
    (pairwise : l.Pairwise apart) (isMember : a ∈ l) (isOther : b ∈ l) (close : ¬apart a b)
    (converse : ¬apart b a) : a = b := by
  induction pairwise with
  | nil => cases isMember
  | cons first rest ih =>
      rcases List.mem_cons.mp isMember with rfl | inTail
      · rcases List.mem_cons.mp isOther with rfl | otherInTail
        · rfl
        · exact absurd (first b otherInTail) close
      · rcases List.mem_cons.mp isOther with rfl | otherInTail
        · exact absurd (first a inTail) converse
        · exact ih inTail otherInTail

/-- A name belongs to one option. -/
theorem Command.Distinct.option_eq {cmd : Command V F} (distinct : cmd.Distinct)
    {opt other : CmdOption V F} (isOption : opt ∈ cmd.options) (isOther : other ∈ cmd.options)
    {name : Bytes} (isName : name ∈ opt.names) (isOtherName : name ∈ other.names) :
    opt = other :=
  eq_of_pairwise distinct.names isOption isOther
    (fun apart => apart name isName isOtherName) (fun apart => apart name isOtherName isName)

theorem find_of_unique {α : Type} {p : α → Bool} {l : List α} {a : α} (isMember : a ∈ l)
    (holds : p a = true) (unique : ∀ b ∈ l, p b = true → b = a) : l.find? p = some a := by
  cases found : l.find? p with
  | none => exact absurd holds (List.find?_eq_none.mp found a isMember)
  | some b => rw [unique b (List.mem_of_find?_eq_some found) (List.find?_some found)]

/-- The item of an option that has been named, and the arguments behind it. -/
def CmdOption.read (opt : CmdOption V F) :
    Option Bytes → List Bytes → Option (Item V F × List Bytes)
  | attached, args =>
      if opt.isFlag then some (.flag opt, args)
      else
        match attached, args with
        | some raw, args => some (.value opt raw, args)
        | none, raw :: args => some (.value opt raw, args)
        | none, [] => none

/-- The item that a command line starts with, as its shape tells. -/
def Command.read (cmd : Command V F) : List Bytes → Option (Item V F × List Bytes)
  | [] => none
  | a :: args =>
      match shape a with
      | .long name attached => (cmd.options.find? (·.match name)).bind (·.read attached args)
      | .short c => (cmd.options.find? (·.sname = some c)).bind (·.read none args)
      | .plain => some (.positional a, args)

theorem shape_of_dashed {name : Bytes} (dashed : Dashed name) (long : 2 < name.length) :
    shape name = .long name none := by
  unfold shape
  rw [if_pos ⟨long, dashed.1⟩]
  dsimp only
  rw [takeWhile_ne_eq_self dashed.2, if_neg dashed.2]

theorem shape_of_attached {name raw : Bytes} (dashed : Dashed name) :
    shape (name ++ 0x3D :: raw) = .long name (some raw) := by
  have two : 2 ≤ name.length := by
    have := congrArg List.length dashed.1
    rw [List.length_take] at this
    simp at this
    omega
  have dashes : (name ++ 0x3D :: raw).take 2 = [0x2D, 0x2D] := by
    rw [List.take_append_of_le_length two, dashed.1]
  have long : 2 < (name ++ 0x3D :: raw).length := by
    rw [List.length_append, List.length_cons]
    omega
  unfold shape
  rw [if_pos ⟨long, dashes⟩]
  dsimp only
  rw [takeWhile_ne_append dashed.2, if_pos (List.mem_append_right _ List.mem_cons_self),
    ← List.drop_drop, List.drop_left]
  rfl

theorem shape_of_positional {token : Bytes}
    (notLong : ¬(2 < token.length ∧ token.take 2 = [0x2D, 0x2D]))
    (notShort : ¬(token.length = 2 ∧ token.head? = some 0x2D)) : shape token = .plain := by
  unfold shape
  rw [if_neg notLong]
  split
  next c => exact absurd ⟨rfl, rfl⟩ notShort
  · rfl

theorem short_mem_names {opt : CmdOption V F} {c : UInt8} (hasShort : opt.sname = some c) :
    CmdOption.short c ∈ opt.names := by
  rw [CmdOption.names, hasShort]
  exact List.mem_cons_of_mem _ List.mem_cons_self

theorem Command.Distinct.find_match {cmd : Command V F} (distinct : cmd.Distinct)
    {opt : CmdOption V F} {name : Bytes} (isOption : opt ∈ cmd.options)
    (isName : name ∈ opt.names) : cmd.options.find? (·.match name) = some opt := by
  apply find_of_unique isOption (match_iff.mpr isName)
  intro other isOther matches_name
  exact distinct.option_eq isOther isOption (match_iff.mp matches_name) isName

theorem Command.Distinct.find_short {cmd : Command V F} (distinct : cmd.Distinct)
    {opt : CmdOption V F} {c : UInt8} (isOption : opt ∈ cmd.options)
    (hasShort : opt.sname = some c) : cmd.options.find? (·.sname = some c) = some opt := by
  apply find_of_unique isOption (decide_eq_true hasShort)
  intro other isOther matches_short
  exact distinct.option_eq isOther isOption (short_mem_names (of_decide_eq_true matches_short))
    (short_mem_names hasShort)

theorem Reads.read {cmd : Command V F} (distinct : cmd.Distinct) {args rest : List Bytes}
    {item : Item V F} (reads : Reads cmd args item rest) : cmd.read args = some (item, rest) := by
  cases reads with
  | separate isOption valued dashed long =>
      simp [Command.read, shape_of_dashed dashed long,
        distinct.find_match isOption List.mem_cons_self, CmdOption.read, valued]
  | attached isOption valued isName dashed =>
      simp [Command.read, shape_of_attached dashed, distinct.find_match isOption isName,
        CmdOption.read, valued]
  | short isOption valued hasShort =>
      simp [Command.read, CmdOption.short, shape, distinct.find_short isOption hasShort,
        CmdOption.read, valued]
  | flag isOption isFlag dashed long =>
      simp [Command.read, shape_of_dashed dashed long,
        distinct.find_match isOption List.mem_cons_self, CmdOption.read, isFlag]
  | attachedFlag isOption isFlag isName dashed =>
      simp [Command.read, shape_of_attached dashed, distinct.find_match isOption isName,
        CmdOption.read, isFlag]
  | shortFlag isOption isFlag hasShort =>
      simp [Command.read, CmdOption.short, shape, distinct.find_short isOption hasShort,
        CmdOption.read, isFlag]
  | positional notLong notShort => rw [Command.read, shape_of_positional notLong notShort]

/-- A command line is read in one way. -/
theorem Written.unique {cmd : Command V F} (distinct : cmd.Distinct) {args : List Bytes}
    {items others : List (Item V F)} (written : Written cmd args items)
    (otherwise : Written cmd args others) : others = items := by
  induction written generalizing others with
  | nil =>
      cases otherwise with
      | nil => rfl
      | cons reads => cases reads
  | cons reads written ih =>
      cases otherwise with
      | nil => cases reads
      | cons other_reads otherwise =>
          have same := (other_reads.read distinct).symm.trans (reads.read distinct)
          cases same
          rw [ih otherwise]

/-! ## What variables hold -/

/-- The text that an item gives to an option; a flag is given one of its own. -/
def Item.textFor (opt : CmdOption V F) : Item V F → Option Bytes
  | .value other raw => if other.lname = opt.lname then some raw else none
  | .flag other => if other.lname = opt.lname then some (bytes "true") else none
  | .positional _ => none

/-- The texts given to an option, in order. -/
def given (opt : CmdOption V F) (items : List (Item V F)) : List Bytes :=
  items.filterMap (Item.textFor opt)

/-- The conversion of the last text, or what was there without one. -/
def TypedValue.last (stof : Bytes → Option F) (value : TypedValue V F) (texts : List Bytes)
    (before : Value F) : Option (Value F) :=
  match texts.getLast? with
  | none => some before
  | some raw => value.convert stof raw

theorem TypedValue.last_cons {stof : Bytes → Option F} {value : TypedValue V F} {raw : Bytes}
    {texts : List Bytes} {before converted : Value F}
    (isConverted : value.convert stof raw = some converted) :
    value.last stof (raw :: texts) before = value.last stof texts converted := by
  rw [last, last, List.getLast?_cons]
  cases texts.getLast? with
  | none => exact isConverted
  | some raw => rfl

section Values

variable [DecidableEq V] {stof : Bytes → Option F}

/-- The texts for a variable. -/
def textsAt (var : V) (pairs : List (TypedValue V F × Bytes)) : List Bytes :=
  pairs.filterMap fun pair => if pair.1.target = some var then some pair.2 else none

theorem TypedValue.set_at {value : TypedValue V F} {raw : Bytes} {store next : V → Value F}
    (isSet : value.set stof raw store = .ok next) {var : V} (hasTarget : value.target = some var) :
    value.convert stof raw = some (next var) := by
  rw [TypedValue.set, hasTarget] at isSet
  dsimp only at isSet
  split at isSet
  · cases isSet
  next converted isConverted =>
    cases isSet
    rw [isConverted, Function.update_self]

theorem TypedValue.set_other {value : TypedValue V F} {raw : Bytes} {store next : V → Value F}
    (isSet : value.set stof raw store = .ok next) {var : V} (other : value.target ≠ some var) :
    next var = store var := by
  unfold TypedValue.set at isSet
  split at isSet
  · cases isSet
    rfl
  next target hasTarget =>
    split at isSet
    · cases isSet
    · cases isSet
      apply Function.update_of_ne
      rintro rfl
      exact other hasTarget

/-- A variable that only one value stores into holds the conversion of the last text for
it. -/
theorem assign_at {pairs : List (TypedValue V F × Bytes)} {store next : V → Value F}
    (assigned : assign stof pairs store = .ok next) {value : TypedValue V F} {var : V}
    (only : ∀ pair ∈ pairs, pair.1.target = some var → pair.1 = value) :
    value.last stof (textsAt var pairs) (store var) = some (next var) := by
  induction pairs generalizing store with
  | nil =>
      cases assigned
      rfl
  | cons pair pairs ih =>
      rw [List.forall_mem_cons] at only
      rw [assign, List.foldlM_cons] at assigned
      rcases bind_eq_ok assigned with ⟨middle, isSet, rest⟩
      have after := ih rest only.2
      by_cases hasTarget : pair.1.target = some var
      · have isConverted := TypedValue.set_at isSet hasTarget
        rw [only.1 hasTarget] at isConverted
        rw [textsAt, List.filterMap_cons_some (by rw [if_pos hasTarget]),
          TypedValue.last_cons isConverted]
        exact after
      · rw [textsAt, List.filterMap_cons_none (by rw [if_neg hasTarget]),
          ← TypedValue.set_other isSet hasTarget]
        exact after

/-- Texts that have been assigned can be converted. -/
theorem assign_converts {pairs : List (TypedValue V F × Bytes)} {store next : V → Value F}
    (assigned : assign stof pairs store = .ok next) :
    ∀ pair ∈ pairs, ∀ var, pair.1.target = some var →
      (pair.1.convert stof pair.2).isSome = true := by
  induction pairs generalizing store with
  | nil => nofun
  | cons pair pairs ih =>
      rw [assign, List.foldlM_cons] at assigned
      rcases bind_eq_ok assigned with ⟨middle, isSet, rest⟩
      rw [List.forall_mem_cons]
      constructor
      · intro var hasTarget
        rw [TypedValue.set_at isSet hasTarget]
        rfl
      · exact ih rest

theorem textsAt_append {var : V} {first second : List (TypedValue V F × Bytes)} :
    textsAt var (first ++ second) = textsAt var first ++ textsAt var second :=
  List.filterMap_append

omit [DecidableEq V] in
/-- The options that items are about belong to the command. -/
theorem Written.isOption {cmd : Command V F} {args : List Bytes} {items : List (Item V F)}
    (written : Written cmd args items) :
    ∀ item ∈ items, ∀ opt, item.option? = some opt → opt ∈ cmd.options := by
  induction written with
  | nil => nofun
  | cons reads _ ih =>
      rw [List.forall_mem_cons]
      refine ⟨fun opt isOption => ?_, ih⟩
      cases reads <;> cases isOption <;> assumption

omit [DecidableEq V] in
/-- A variable belongs to one option. -/
theorem Command.Distinct.option_of_target {cmd : Command V F} (distinct : cmd.Distinct)
    {opt other : CmdOption V F} (isOption : opt ∈ cmd.options) (isOther : other ∈ cmd.options)
    {var : V} (hasTarget : opt.val.target = some var) (same : other.val.target = some var) :
    opt = other := by
  have apart := (List.pairwise_append.mp distinct.targets).1
  rw [List.pairwise_map] at apart
  exact eq_of_pairwise apart isOption isOther (fun apart => apart.other hasTarget same)
    (fun apart => apart.other same hasTarget)

omit [DecidableEq V] in
/-- The variable of an option belongs to no argument. -/
theorem Command.Distinct.option_argument {cmd : Command V F} (distinct : cmd.Distinct)
    {opt : CmdOption V F} (isOption : opt ∈ cmd.options) {arg : Argument V F}
    (isArgument : arg ∈ cmd.arguments) {var : V} (hasTarget : opt.val.target = some var) :
    arg.val.target ≠ some var :=
  ((List.pairwise_append.mp distinct.targets).2.2 _ (List.mem_map_of_mem isOption) _
    (List.mem_map_of_mem isArgument)).other hasTarget

/-- The texts for the variable of an option are those given to it. -/
theorem textsAt_option {cmd : Command V F} (distinct : cmd.Distinct) {args : List Bytes}
    {items : List (Item V F)} (written : Written cmd args items) {opt : CmdOption V F}
    (isOption : opt ∈ cmd.options) {var : V} (hasTarget : opt.val.target = some var) :
    textsAt var (items.filterMap Item.pair?) = given opt items := by
  have same : ∀ {other}, other ∈ cmd.options →
      (other.val.target = some var ↔ other.lname = opt.lname) := by
    intro other isOther
    constructor
    · intro otherTarget
      rw [distinct.option_of_target isOther isOption otherTarget hasTarget]
    · intro sameName
      have isName : opt.lname ∈ other.names := sameName ▸ List.mem_cons_self
      rw [distinct.option_eq isOther isOption isName List.mem_cons_self]
      exact hasTarget
  rw [textsAt, given, List.filterMap_filterMap]
  apply List.filterMap_congr
  intro item isMember
  have isOther := written.isOption item isMember
  cases item with
  | value other raw =>
      simp only [Item.pair?, Option.bind_some, same (isOther other rfl), Item.textFor]
  | flag other =>
      simp only [Item.pair?, Option.bind_some, same (isOther other rfl), Item.textFor]
  | positional token => rfl

/-- Nothing but an argument stores into its variable. -/
theorem textsAt_argument {cmd : Command V F} (distinct : cmd.Distinct) {args : List Bytes}
    {items : List (Item V F)} (written : Written cmd args items) {arg : Argument V F}
    (isArgument : arg ∈ cmd.arguments) {var : V} (hasTarget : arg.val.target = some var) :
    textsAt var (items.filterMap Item.pair?) = [] := by
  rw [textsAt, List.filterMap_filterMap, List.filterMap_eq_nil_iff]
  intro item isMember
  have isOther := written.isOption item isMember
  have differs : ∀ other, item.option? = some other → other.val.target ≠ some var :=
    fun other isOption same =>
      distinct.option_argument (isOther other isOption) isArgument same hasTarget
  cases item with
  | value other raw => exact if_neg (differs other rfl)
  | flag other => exact if_neg (differs other rfl)
  | positional token => rfl

/-- The values of positional arguments, and the texts they are converted from. -/
def argumentPairs (arguments : List (Argument V F)) (tokens : List Bytes) :
    List (TypedValue V F × Bytes) :=
  (arguments.zip tokens).map fun pair => (pair.1.val, pair.2)

theorem textsAt_argumentPairs_other {arguments : List (Argument V F)} {tokens : List Bytes}
    {var : V} (others : ∀ arg ∈ arguments, arg.val.target ≠ some var) :
    textsAt var (argumentPairs arguments tokens) = [] := by
  rw [textsAt, List.filterMap_eq_nil_iff]
  intro pair isMember
  rcases List.mem_map.mp isMember with ⟨source, inZip, rfl⟩
  exact if_neg (others _ (List.of_mem_zip inZip).1)

/-- The texts for the variable of an argument among the positional ones. -/
theorem textsAt_argumentPairs {arguments : List (Argument V F)} {tokens : List Bytes}
    (apart : arguments.Pairwise fun arg other => arg.val.Apart other.val)
    {i : Nat} {arg : Argument V F} (isArgument : arguments[i]? = some arg) {var : V}
    (hasTarget : arg.val.target = some var) :
    textsAt var (argumentPairs arguments tokens) = tokens[i]?.toList := by
  induction apart generalizing i tokens with
  | nil => cases isArgument
  | @cons first rest isApart restApart ih =>
      cases tokens with
      | nil => rfl
      | cons token tokens =>
          cases i with
          | zero =>
              cases isArgument
              have noMore : textsAt var (argumentPairs rest tokens) = [] :=
                textsAt_argumentPairs_other fun other isMember =>
                  (isApart other isMember).other hasTarget
              rw [argumentPairs, List.zip_cons_cons, List.map_cons, textsAt,
                List.filterMap_cons_some (by rw [if_pos hasTarget])]
              exact congrArg _ noMore
          | succ i =>
              have isMember : arg ∈ rest := List.mem_of_getElem? isArgument
              have other : first.val.target ≠ some var :=
                fun same => (isApart _ isMember).other same hasTarget
              rw [argumentPairs, List.zip_cons_cons, List.map_cons, textsAt,
                List.filterMap_cons_none (by rw [if_neg other])]
              exact ih isArgument

/-- A bound command has set the values of its items and then those of its arguments. -/
theorem bindCommand_written {cmd : Command V F} {args : List Bytes} {store next : V → Value F}
    (parsed : bindCommand stof cmd args store = .ok next) :
    ∃ items, Written cmd args items ∧
      assign stof (items.filterMap Item.pair? ++ argumentPairs cmd.arguments (positionals items))
        store = .ok next := by
  unfold bindCommand at parsed
  rcases bind_eq_ok parsed with ⟨bound, looped, parsed⟩
  rcases bind_eq_ok parsed with ⟨final, isBound, parsed⟩
  have same : final = next := by
    split at parsed
    · cases parsed
    · split at parsed
      · cases parsed
      · cases parsed
        rfl
  rcases parseLoop_written looped with ⟨items, written, assigned, tokens⟩
  refine ⟨items, written, assign_append assigned ?_⟩
  rw [assign, argumentPairs, List.foldlM_map, ← same, ← isBound, bindArguments, tokens]
  rfl

omit [DecidableEq V] in
/-- Only values of a command are set. -/
theorem mem_ownValues {cmd : Command V F} {args : List Bytes} {items : List (Item V F)}
    (written : Written cmd args items) :
    ∀ pair ∈ items.filterMap Item.pair? ++ argumentPairs cmd.arguments (positionals items),
      pair.1 ∈ cmd.ownValues := by
  intro pair isMember
  rw [Command.ownValues, List.mem_append]
  rcases List.mem_append.mp isMember with inItems | inArguments
  · rcases List.mem_filterMap.mp inItems with ⟨item, isItem, isPair⟩
    have isOption := written.isOption item isItem
    left
    cases item with
    | value opt raw =>
        cases isPair
        exact List.mem_map_of_mem (isOption opt rfl)
    | flag opt =>
        cases isPair
        exact List.mem_map_of_mem (isOption opt rfl)
    | positional token => cases isPair
  · rcases List.mem_map.mp inArguments with ⟨source, inZip, rfl⟩
    exact Or.inr (List.mem_map_of_mem (List.of_mem_zip inZip).1)

/-- A variable of a command holds the conversion of the last text for it. -/
theorem bound_at {cmd : Command V F} (distinct : cmd.Distinct) {args : List Bytes}
    {items : List (Item V F)} (written : Written cmd args items) {store next : V → Value F}
    (assigned : assign stof
      (items.filterMap Item.pair? ++ argumentPairs cmd.arguments (positionals items)) store =
        .ok next)
    {value : TypedValue V F} (isValue : value ∈ cmd.ownValues) {var : V}
    (hasTarget : value.target = some var) :
    value.last stof (textsAt var (items.filterMap Item.pair?) ++
      textsAt var (argumentPairs cmd.arguments (positionals items))) (store var) =
        some (next var) := by
  rw [← textsAt_append]
  apply assign_at assigned
  intro pair isMember same
  exact eq_of_pairwise distinct.targets (mem_ownValues written pair isMember) isValue
    (fun apart => apart.other same hasTarget) (fun apart => apart.other hasTarget same)

end Values

end Cllama.Util
