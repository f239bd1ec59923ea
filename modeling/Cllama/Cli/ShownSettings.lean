import Cllama.Cli.ServeList
import Cllama.Cli.ServeStop
import Cllama.Util.CflagSpelling

/-!
# What the list shows

The scan of a command line repeats the parser of `serve start` by hand, but knows neither a
value that is attached to its option nor the options of other settings, and no longer sees
where an argument ends.  As long as no other word looks like an option of a setting, both go
through the same pieces, and the list shows a setting as it is unless the last piece for it is
one that the scan passes over.
-/

namespace Cllama.Cli

open Cllama.Library Cllama.Platform Cllama.Util

/-! ## Settings and variables -/

namespace Setting

/-- The variable of a setting in `main`. -/
def var : Setting → Var
  | .host => .host
  | .port => .port
  | .models => .modelsFolder
  | .name => .serveName
  | .daemon => .daemonFlag

/-- The setting of a variable. -/
def ofVar : Var → Option Setting
  | .host => some .host
  | .port => some .port
  | .modelsFolder => some .models
  | .serveName => some .name
  | .daemonFlag => some .daemon
  | _ => none

theorem ofVar_eq_some_iff {var : Var} {setting : Setting} :
    ofVar var = some setting ↔ var = setting.var := by
  cases var <;> cases setting <;> decide

end Setting

/-- A setting as a value. -/
def ServeSettings.read {F : Type} (settings : ServeSettings) : Setting → Value F
  | .host => .string settings.host
  | .port => .int settings.port
  | .models => .string settings.models
  | .name => .string settings.name
  | .daemon => .bool settings.daemon

section Settings

variable {F : Type} (chat : ChatDefaults F) (stof : Bytes → Option F)

/-- A setting as the parser knows it. -/
def Setting.typed (setting : Setting) : TypedValue Var F :=
  ⟨some setting.var, fallback chat setting.var⟩

/-- The value of a setting after texts for it. -/
def Setting.value (setting : Setting) (texts : List Bytes) : Option (Value F) :=
  (setting.typed chat).last stof texts (fallback chat setting.var)

end Settings

/-! ## What the scan hears -/

/-- No word is the option of a setting. -/
def Quiet (words : List Bytes) : Prop :=
  ∀ word ∈ words, settingOf word = none

instance (words : List Bytes) : Decidable (Quiet words) :=
  inferInstanceAs (Decidable (∀ _ ∈ _, _))

section Pieces

variable {F : Type}

/-- The words of a piece are quiet, apart from the name of its option, and the value behind
the option of a setting starts with a word. -/
def InStep : Spelled Var F → Prop
  | .separate _ name raw =>
      if settingOf name = none then Quiet (words raw)
      else words raw ≠ [] ∧ Quiet (words raw).tail
  | .flag _ _ => True
  | .attached _ name raw | .attachedFlag _ name raw => Quiet (words (name ++ 0x3D :: raw))
  | .positional token => Quiet (words token)

instance (piece : Spelled Var F) : Decidable (InStep piece) := by
  cases piece <;> unfold InStep <;> infer_instance

/-- What the scan takes from a piece: the first word of a value that is an argument of its
own, and a flag that stands alone. -/
def heard : Spelled Var F → Option (TypedValue Var F × Bytes)
  | .separate opt _ raw => (words raw).head?.map fun word => (opt.val, word)
  | .flag opt _ => some (opt.val, bytes "true")
  | .attached _ _ _ | .attachedFlag _ _ _ | .positional _ => none

/-- What the parser takes from a piece. -/
def told (piece : Spelled Var F) : Option (TypedValue Var F × Bytes) :=
  piece.item.pair?

end Pieces

/-! ## The condition -/

section Condition

variable {F : Type} (chat : ChatDefaults F) (stof : Bytes → Option F)

/-- The pieces behind `serve start`. -/
def pieces (args : List Bytes) : List (Spelled Var F) :=
  (serveStart chat).spell (args.drop 2)

/-- The scan goes through the pieces of the arguments, and takes nothing else. -/
def AllInStep (prog : Bytes) (args : List Bytes) : Prop :=
  Quiet (words prog) ∧ ∀ piece ∈ pieces chat args, InStep piece

/-- What is heard last about a setting has the value of what is told last. -/
def Repeats (args : List Bytes) : Prop :=
  ∀ setting : Setting,
    setting.value chat stof (textsAt setting.var ((pieces chat args).filterMap heard)) =
      setting.value chat stof (textsAt setting.var ((pieces chat args).filterMap told))

/-- A process that the list takes for an instance. -/
def Visible (entry : ProcessEntry) : Prop :=
  (find (bytes "cllama") (entry.comm.takeWhile (· ≠ 0x0A))).isSome = true ∧
    looksLikeServe (Host.joinArgs entry.argv) = true

/-- The list shows a process with the settings that variables hold. -/
def Reports (paths : Paths) (directory : Bytes) (host : Host) (entry : ProcessEntry)
    (store : Var → Value F) : Prop :=
  ∃ row, listRow paths directory host (entry.pid, entry.comm.takeWhile (· ≠ 0x0A)) = some [row] ∧
    row.pid = entry.pid ∧ ∀ setting, row.settings.read setting = store setting.var

end Condition

/-! ## The words of a command line -/

theorem words_joinArgs (argv : List Bytes) : words (Host.joinArgs argv) = argv.flatMap words := by
  have step : ∀ cmdline seg : Bytes,
      words (cmdline ++ ((if cmdline = [] then [] else [0x20]) ++ seg)) =
        words cmdline ++ words seg := by
    intro cmdline seg
    split
    next empty =>
      rw [empty]
      rfl
    next nonempty => exact words_append (by decide)
  have joined : ∀ cmdline : Bytes, words (argv.foldl (fun cmdline seg =>
      cmdline ++ ((if cmdline = [] then [] else [0x20]) ++ seg)) cmdline) =
        words cmdline ++ argv.flatMap words := by
    induction argv with
    | nil => simp
    | cons seg argv ih =>
        intro cmdline
        rw [List.foldl_cons, ih, step, List.flatMap_cons, List.append_assoc]
  exact joined []

/-! ## The scan, piece by piece -/

section Scan

variable {F : Type} {chat : ChatDefaults F} {stof : Bytes → Option F}

theorem scan_quiet {quiet rest : List Bytes} (isQuiet : Quiet quiet) (settings : ServeSettings) :
    scan (quiet ++ rest) settings = scan rest settings := by
  induction quiet with
  | nil => rfl
  | cons word quiet ih =>
      rw [Quiet, List.forall_mem_cons] at isQuiet
      rw [List.cons_append, scan, isQuiet.1]
      exact ih isQuiet.2

/-- The settings after a pair that was heard. -/
def ServeSettings.store (settings : ServeSettings) (pair : TypedValue Var F × Bytes) :
    Option ServeSettings :=
  match pair.1.target.bind Setting.ofVar with
  | none => some settings
  | some setting => settings.set pair.2 setting

theorem scan_option {arg value : Bytes} {rest : List Bytes} {setting : Setting}
    (isOption : settingOf arg = some setting) (valued : setting ≠ .daemon)
    (settings : ServeSettings) :
    scan (arg :: value :: rest) settings = (settings.set value setting).bind (scan rest) := by
  rw [scan, isOption]
  cases setting with
  | daemon => exact absurd rfl valued
  | host | models | name => rfl
  | port =>
      dsimp only
      cases settings.set value .port <;> rfl

theorem option_names : ∀ opt ∈ (serveStart chat).options, ∀ name ∈ opt.names,
    settingOf name = opt.val.target.bind Setting.ofVar :=
  of_decide_eq_true rfl

theorem option_words : ∀ opt ∈ (serveStart chat).options, ∀ name ∈ opt.names,
    words name = [name] :=
  of_decide_eq_true rfl

theorem option_flags : ∀ opt ∈ (serveStart chat).options,
    opt.isFlag = decide (opt.val.target.bind Setting.ofVar = some .daemon) :=
  of_decide_eq_true rfl

/-- An option with its value behind it: the scan passes over an option that is not one of a
setting, together with the value, and takes the first word behind the option of a setting. -/
theorem scan_separate {opt : CmdOption Var F} {name raw : Bytes}
    (belongs : (Spelled.separate opt name raw).Belongs (serveStart chat))
    (inStep : InStep (Spelled.separate opt name raw)) (rest : List Bytes)
    (settings : ServeSettings) :
    scan (name :: (words raw ++ rest)) settings =
      ((heard (Spelled.separate opt name raw)).toList.foldlM ServeSettings.store settings).bind
        (scan rest) := by
  rcases belongs with ⟨isOption, valued, isName⟩
  have named := option_names opt isOption name isName
  have notDaemon := (option_flags opt isOption).symm.trans valued
  rw [InStep] at inStep
  cases isSetting : settingOf name with
  | none =>
      rw [if_pos isSetting] at inStep
      rw [scan, isSetting, scan_quiet inStep, heard]
      cases words raw with
      | nil => rfl
      | cons word others => simp [ServeSettings.store, ← named, isSetting]
  | some setting =>
      rw [if_neg (by simp [isSetting])] at inStep
      have valuedSetting : setting ≠ .daemon := by
        rintro rfl
        rw [← named, isSetting] at notDaemon
        cases notDaemon
      cases isWords : words raw with
      | nil => exact absurd isWords inStep.1
      | cons word others =>
          rw [isWords] at inStep
          rw [List.cons_append, scan_option isSetting valuedSetting, heard, isWords]
          simp only [List.head?_cons, Option.map_some, Option.toList_some, List.foldlM_cons,
            List.foldlM_nil, ServeSettings.store, ← named, isSetting, bind_pure]
          congr 1
          funext settings
          exact scan_quiet inStep.2 settings

/-- The scan takes from a piece what is heard of it. -/
theorem scan_piece {piece : Spelled Var F} (belongs : piece.Belongs (serveStart chat))
    (inStep : InStep piece) (rest : List Bytes) (settings : ServeSettings) :
    scan (piece.tokens.flatMap words ++ rest) settings =
      ((heard piece).toList.foldlM ServeSettings.store settings).bind (scan rest) := by
  cases piece with
  | separate opt name raw =>
      have cut : (Spelled.separate opt name raw).tokens.flatMap words ++ rest =
          name :: (words raw ++ rest) := by
        simp [Spelled.tokens, option_words opt belongs.1 name belongs.2.2]
      rw [cut]
      exact scan_separate belongs inStep rest settings
  | flag opt name =>
      rcases belongs with ⟨isOption, isFlag, isName⟩
      have isDaemon : settingOf name = some .daemon := by
        rw [option_names opt isOption name isName]
        exact of_decide_eq_true ((option_flags opt isOption).symm.trans isFlag)
      have cut : (Spelled.flag opt name).tokens.flatMap words ++ rest = name :: rest := by
        simp [Spelled.tokens, option_words opt isOption name isName]
      rw [cut, scan, isDaemon, heard]
      simp [ServeSettings.store, ← option_names opt isOption name isName, isDaemon,
        ServeSettings.set]
  | attached opt name raw =>
      simp only [Spelled.tokens, List.flatMap_singleton]
      exact scan_quiet inStep settings
  | attachedFlag opt name raw =>
      simp only [Spelled.tokens, List.flatMap_singleton]
      exact scan_quiet inStep settings
  | positional token =>
      simp only [Spelled.tokens, List.flatMap_singleton]
      exact scan_quiet inStep settings

/-- Over all pieces, by induction on them. -/
theorem scan_pieces {pieces : List (Spelled Var F)}
    (belongs : ∀ piece ∈ pieces, piece.Belongs (serveStart chat))
    (inStep : ∀ piece ∈ pieces, InStep piece) (settings : ServeSettings) :
    scan ((pieces.flatMap Spelled.tokens).flatMap words) settings =
      (pieces.filterMap heard).foldlM ServeSettings.store settings := by
  induction pieces generalizing settings with
  | nil => rfl
  | cons piece pieces ih =>
      rw [List.forall_mem_cons] at belongs inStep
      rw [List.flatMap_cons, List.flatMap_append, scan_piece belongs.1 inStep.1,
        filterMap_cons_eq, List.foldlM_append]
      congr 1
      funext settings
      exact ih belongs.2 inStep.2 settings

/-! ## The values of settings -/

/-- A pair that is stored sets its own setting, and no other. -/
theorem ServeSettings.store_read {settings next : ServeSettings}
    {pair : TypedValue Var F × Bytes} (stored : settings.store pair = some next)
    (setting : Setting) :
    if pair.1.target = some setting.var then
      (setting.typed chat).convert stof pair.2 = some (next.read setting)
    else (next.read setting : Value F) = settings.read setting := by
  rw [ServeSettings.store] at stored
  cases isSetting : pair.1.target.bind Setting.ofVar with
  | none =>
      rw [isSetting] at stored
      cases stored
      rw [if_neg]
      intro hasTarget
      rw [hasTarget, Option.bind_some, Setting.ofVar_eq_some_iff.mpr rfl] at isSetting
      cases isSetting
  | some other =>
      rw [isSetting] at stored
      rcases Option.bind_eq_some_iff.mp isSetting with ⟨var, hasTarget, isVar⟩
      rw [Setting.ofVar_eq_some_iff] at isVar
      subst isVar
      rw [hasTarget]
      cases other with
      | port =>
          rcases Option.map_eq_some_iff.mp stored with ⟨port, isPort, rfl⟩
          cases setting with
          | port => simp [Setting.typed, TypedValue.convert, fallback, Setting.var, isPort, read]
          | host | models | name | daemon => simp [Setting.var, read]
      | host | models | name | daemon =>
          cases stored
          cases setting <;> simp [Setting.typed, TypedValue.convert, fallback, Setting.var, read]

/-- After all pairs, a setting has the value of the last text for it. -/
theorem foldlM_store_read {pairs : List (TypedValue Var F × Bytes)}
    {settings next : ServeSettings}
    (stored : pairs.foldlM ServeSettings.store settings = some next) (setting : Setting) :
    (setting.typed chat).last stof (textsAt setting.var pairs) (settings.read setting) =
      some (next.read setting) := by
  induction pairs generalizing settings with
  | nil =>
      cases stored
      rfl
  | cons pair pairs ih =>
      rw [List.foldlM_cons] at stored
      rcases Option.bind_eq_some_iff.mp stored with ⟨middle, first, rest⟩
      have after := ih rest
      have read := @ServeSettings.store_read F chat stof _ _ _ first setting
      split at read
      next hasTarget =>
        rw [textsAt, List.filterMap_cons_some (by rw [if_pos hasTarget]),
          TypedValue.last_cons read]
        exact after
      next otherTarget =>
        rw [textsAt, List.filterMap_cons_none (by rw [if_neg otherTarget]), ← read]
        exact after

/-- No exception escapes if the texts of settings can be converted. -/
theorem foldlM_store_isSome {pairs : List (TypedValue Var F × Bytes)}
    (converts : ∀ pair ∈ pairs, ∀ setting : Setting, pair.1.target = some setting.var →
      ((setting.typed chat).convert stof pair.2).isSome = true) (settings : ServeSettings) :
    ∃ next, pairs.foldlM ServeSettings.store settings = some next := by
  induction pairs generalizing settings with
  | nil => exact ⟨settings, rfl⟩
  | cons pair pairs ih =>
      rw [List.forall_mem_cons] at converts
      have stores : ∃ middle, settings.store pair = some middle := by
        rw [ServeSettings.store]
        cases isSetting : pair.1.target.bind Setting.ofVar with
        | none => exact ⟨settings, rfl⟩
        | some setting =>
            rcases Option.bind_eq_some_iff.mp isSetting with ⟨var, hasTarget, isVar⟩
            rw [Setting.ofVar_eq_some_iff] at isVar
            subst isVar
            have converted := converts.1 setting hasTarget
            cases setting with
            | port =>
                simp only [Setting.typed, TypedValue.convert, fallback, Setting.var,
                  Option.isSome_map] at converted
                rcases Option.isSome_iff_exists.mp converted with ⟨port, isPort⟩
                exact ⟨{ settings with port := port }, by simp [ServeSettings.set, isPort]⟩
            | host | models | name | daemon => exact ⟨_, rfl⟩
      rcases stores with ⟨middle, stored⟩
      rcases ih converts.2 middle with ⟨next, rest⟩
      refine ⟨next, ?_⟩
      rw [List.foldlM_cons, stored]
      exact rest

theorem convert_word {setting : Setting} {raw word : Bytes} {others : List Bytes}
    (isFirst : words raw = word :: others) :
    ((setting.typed chat).convert stof word).isSome =
      ((setting.typed chat).convert stof raw).isSome := by
  cases setting with
  | port =>
      simp only [Setting.typed, TypedValue.convert, fallback, Setting.var]
      rw [stoiInt_of_words isFirst]
  | host | models | name | daemon => rfl

theorem serveStart_values : (serveStart chat).ownValues =
    [Var.serveName, .logFile, .host, .port, .routerImpl, .modelsFolder, .daemonFlag, .pidfile].map
      fun var => ⟨some var, fallback chat var⟩ := rfl

theorem typed_mem_values (setting : Setting) :
    setting.typed chat ∈ (serveStart chat).ownValues := by
  rw [serveStart_values]
  apply List.mem_map_of_mem
  cases setting <;> decide

theorem eq_typed {value : TypedValue Var F} (isValue : value ∈ (serveStart chat).ownValues)
    {setting : Setting} (hasTarget : value.target = some setting.var) :
    value = setting.typed chat := by
  rw [serveStart_values] at isValue
  rcases List.mem_map.mp isValue with ⟨var, -, rfl⟩
  cases hasTarget
  rfl

/-- The arguments of `serve start` fall into pieces, whose values have been assigned. -/
theorem bound_told {rest : List Bytes} {store next : Var → Value F}
    (bound : bindCommand stof (serveStart chat) rest store = .ok next) :
    ∃ items, Spells (serveStart chat) rest items ∧
      assign stof (((serveStart chat).spell rest).filterMap told) store = .ok next ∧
      ∀ pair ∈ ((serveStart chat).spell rest).filterMap told,
        pair.1 ∈ (serveStart chat).ownValues := by
  rcases bindCommand_written bound with ⟨items, written, assigned⟩
  have spells := written.spells ((app_wellFormed chat).distinct _ serveStart_mem_all)
  have toldPairs : ((serveStart chat).spell rest).filterMap told =
      items.filterMap Item.pair? ++
        argumentPairs (serveStart chat).arguments (positionals items) := by
    have noArguments : argumentPairs (serveStart chat).arguments (positionals items) = [] := rfl
    rw [noArguments, List.append_nil, ← spells.items, List.filterMap_map]
    rfl
  rw [toldPairs]
  exact ⟨items, spells, assigned, mem_ownValues written⟩

/-- What `serve start` has been told last is what its variables hold. -/
theorem told_value {rest : List Bytes} {store next : Var → Value F}
    (bound : bindCommand stof (serveStart chat) rest ((app chat).declare store) = .ok next)
    (setting : Setting) :
    setting.value chat stof
      (textsAt setting.var (((serveStart chat).spell rest).filterMap told)) =
        some (next setting.var) := by
  rcases bound_told bound with ⟨items, -, assigned, isOwn⟩
  have held : (setting.typed chat).last stof
      (textsAt setting.var (((serveStart chat).spell rest).filterMap told))
      ((app chat).declare store setting.var) = some (next setting.var) :=
    assign_at assigned fun pair isPair hasTarget => eq_typed (isOwn pair isPair) hasTarget
  rw [App.declare_fallback (app_wellFormed chat) serveStart_mem_all
    (typed_mem_values setting) rfl] at held
  exact held

/-- What the scan hears can be converted, since what was told could. -/
theorem heard_converts {rest : List Bytes} {store next : Var → Value F}
    (bound : bindCommand stof (serveStart chat) rest store = .ok next) :
    ∀ pair ∈ ((serveStart chat).spell rest).filterMap heard, ∀ setting : Setting,
      pair.1.target = some setting.var →
        ((setting.typed chat).convert stof pair.2).isSome = true := by
  rcases bound_told bound with ⟨items, -, assigned, isOwn⟩
  have converts : ∀ piece ∈ (serveStart chat).spell rest, ∀ pair, told piece = some pair →
      ∀ setting : Setting, pair.1.target = some setting.var →
        ((setting.typed chat).convert stof pair.2).isSome = true := by
    intro piece isPiece pair isTold setting hasTarget
    have isPair := List.mem_filterMap.mpr ⟨piece, isPiece, isTold⟩
    rw [← eq_typed (isOwn pair isPair) hasTarget]
    exact assign_converts assigned pair isPair setting.var hasTarget
  intro pair isPair setting hasTarget
  rcases List.mem_filterMap.mp isPair with ⟨piece, isPiece, isHeard⟩
  cases piece with
  | separate opt name raw =>
      rcases Option.map_eq_some_iff.mp isHeard with ⟨word, isFirst, rfl⟩
      rcases List.head?_eq_some_iff.mp isFirst with ⟨others, isWords⟩
      rw [convert_word isWords]
      exact converts _ isPiece (opt.val, raw) rfl setting hasTarget
  | flag opt name =>
      cases isHeard
      exact converts _ isPiece _ rfl setting hasTarget
  | attached opt name raw => cases isHeard
  | attachedFlag opt name raw => cases isHeard
  | positional token => cases isHeard

/-- A scan in step with the parser ends without an exception, and each setting has the value
of what was heard last. -/
theorem scan_value {prog : Bytes} {rest : List Bytes} {store next : Var → Value F}
    (bound : bindCommand stof (serveStart chat) rest store = .ok next)
    (inStep : AllInStep chat prog (bytes "serve" :: bytes "start" :: rest)) :
    ∃ settings : ServeSettings,
      scan (words (Host.joinArgs (prog :: bytes "serve" :: bytes "start" :: rest))) {} =
        some settings ∧
      ∀ setting : Setting, setting.value chat stof
        (textsAt setting.var (((serveStart chat).spell rest).filterMap heard)) =
          some (settings.read setting) := by
  rcases bound_told bound with ⟨items, spells, -, -⟩
  rcases foldlM_store_isSome (heard_converts bound) {} with ⟨settings, stored⟩
  refine ⟨settings, ?_, fun setting => ?_⟩
  · have inFront : Quiet (words prog ++ [bytes "serve", bytes "start"]) := by
      rw [Quiet, List.forall_mem_append]
      exact ⟨inStep.1, by decide⟩
    have serveStart_words : ∀ word ∈ [bytes "serve", bytes "start"], words word = [word] := by
      decide
    rw [words_joinArgs, List.flatMap_cons, List.flatMap_cons, List.flatMap_cons,
      serveStart_words _ List.mem_cons_self,
      serveStart_words _ (List.mem_cons_of_mem _ List.mem_cons_self), ← List.append_assoc,
      ← List.append_assoc, List.append_assoc (words prog), List.singleton_append,
      scan_quiet inFront, ← spells.tokens, scan_pieces spells.belongs inStep.2]
    exact stored
  · have read := @foldlM_store_read F chat stof _ _ _ stored setting
    rw [← read]
    cases setting <;> rfl

/-- An instance is shown with the settings that the scan ends in, and nothing else is shown. -/
theorem reports_iff_of_scanned {paths : Paths} {directory : Bytes} {host : Host}
    {entry : ProcessEntry} {store : Var → Value F} (isEntry : entry ∈ host.table.entries)
    (alive : entry.zombie = false) {settings : ServeSettings}
    (scanned : scan (words (Host.joinArgs entry.argv)) {} = some settings) :
    Reports paths directory host entry store ↔
      Visible entry ∧ ∀ setting, settings.read setting = store setting.var := by
  rw [Reports, listRow, getProcessCmdline_of_mem isEntry alive, Visible, ← Bool.and_eq_true]
  dsimp only
  split
  next visible =>
    rw [scanned, Option.map_some]
    constructor
    · rintro ⟨row, isRow, -, same⟩
      cases isRow
      exact ⟨visible, same⟩
    · exact fun shown => ⟨_, rfl, rfl, shown.2⟩
  next invisible =>
    apply iff_of_false
    · rintro ⟨row, isRow, -⟩
      cases isRow
    · exact fun shown => invisible shown.1

/-- For every process that was started by arguments that `serve start` accepts: if the scan is
in step with the parser, the list shows what the parser bound exactly under the condition
above. -/
theorem reports_iff (paths : Paths) (directory : Bytes) (chat : ChatDefaults F)
    (stof : Bytes → Option F) (host : Host) (entry : ProcessEntry)
    (isEntry : entry ∈ host.table.entries) (alive : entry.zombie = false) (prog : Bytes)
    (args : List Bytes) (argv : entry.argv = prog :: args) (store next : Var → Value F)
    (position : Position Var F)
    (parsed : (app chat).parse stof args ((app chat).declare store) = .ok (position, next))
    (isStart : position.fullName = bytes "serve start") (inStep : AllInStep chat prog args) :
    Reports paths directory host entry next ↔ Visible entry ∧ Repeats chat stof args := by
  rcases serveStart_bound parsed isStart with ⟨rest, rfl, bound⟩
  rcases scan_value bound inStep with ⟨settings, scanned, isHeard⟩
  rw [← argv] at scanned
  rw [reports_iff_of_scanned isEntry alive scanned, Repeats]
  apply and_congr_right
  intro _
  apply forall_congr'
  intro setting
  change _ ↔ setting.value chat stof
      (textsAt setting.var (((serveStart chat).spell rest).filterMap heard)) =
    setting.value chat stof
      (textsAt setting.var (((serveStart chat).spell rest).filterMap told))
  rw [isHeard setting, told_value bound setting, Option.some.injEq]

end Scan

/-! ## The whole list -/

section List

variable {paths : Paths} {directory : Bytes} {host : Host}

/-- By induction on the processes: without an exception, the list has the lines of each. -/
theorem listRows_eq {processes : List (Nat × Bytes)}
    (returns : ∀ process ∈ processes, (listRow paths directory host process).isSome = true) :
    listRows paths directory host processes =
      (some 0, processes.flatMap fun process =>
        (listRow paths directory host process).getD []) := by
  induction processes with
  | nil => rfl
  | cons process processes ih =>
      rw [List.forall_mem_cons] at returns
      rcases Option.isSome_iff_exists.mp returns.1 with ⟨rows, isRows⟩
      rw [listRows, isRows, ih returns.2, List.flatMap_cons, isRows]
      rfl

theorem pid_of_listRow {process : Nat × Bytes} {rows : List Row}
    (isRows : listRow paths directory host process = some rows) :
    ∀ row ∈ rows, row.pid = process.1 := by
  unfold listRow at isRows
  dsimp only at isRows
  split at isRows
  · rcases Option.map_eq_some_iff.mp isRows with ⟨settings, -, rfl⟩
    intro row isRow
    rw [List.mem_singleton.mp isRow]
  · cases isRows
    exact List.forall_mem_nil _

/-- If no process ends the list with an exception, an instance that is reported has one line
in it, and no other line has its pid. -/
theorem cmdServeList_reports {F : Type} {store : Var → Value F} {entry : ProcessEntry}
    (returns : ∀ process ∈ host.listProcesses,
      (listRow paths directory host process).isSome = true)
    (isEntry : entry ∈ host.table.entries) (signalable : entry.signalable = true)
    (alive : entry.zombie = false) (reports : Reports paths directory host entry store) :
    (cmdServeList paths directory host).1 = some 0 ∧
      ∃ row ∈ (cmdServeList paths directory host).2,
        (∀ setting, row.settings.read setting = store setting.var) ∧
          ∀ other ∈ (cmdServeList paths directory host).2, other.pid = entry.pid →
            other = row := by
  rcases reports with ⟨row, isRow, -, same⟩
  have isListed : (entry.pid, entry.comm.takeWhile (· ≠ 0x0A)) ∈ host.listProcesses :=
    List.mem_map_of_mem (List.mem_filter.mpr ⟨isEntry, by rw [signalable, alive]; rfl⟩)
  rw [cmdServeList, listRows_eq returns]
  refine ⟨rfl, row, ?_, same, ?_⟩
  · apply List.mem_flatMap.mpr ⟨_, isListed, _⟩
    rw [isRow]
    exact List.mem_singleton_self row
  · intro other isOther samePid
    rcases List.mem_flatMap.mp isOther with ⟨process, isProcess, inRows⟩
    rcases Option.isSome_iff_exists.mp (returns process isProcess) with ⟨rows, isRows⟩
    rw [isRows] at inRows
    have isPid := pid_of_listRow isRows other inRows
    rcases List.mem_map.mp isProcess with ⟨otherEntry, isOtherEntry, rfl⟩
    have sameEntry := entry_unique (List.mem_of_mem_filter isOtherEntry) isEntry
      (isPid.symm.trans samePid)
    subst sameEntry
    cases isRow.symm.trans isRows
    exact List.mem_singleton.mp inRows

end List

/-! ## Two instances -/

/-- An instance with some arguments. -/
def listedEntry (args : List String) : ProcessEntry :=
  ⟨7, bytes "cllama", bytes "./cllama" :: args.map bytes, false, true, none⟩

/-- A host with one process. -/
def listedHost (args : List String) : Host :=
  ⟨ProcessTable.empty.add (listedEntry args) (Nat.succ_pos 6) List.not_mem_nil, fun _ => none, []⟩

/-- Any numbers will do for the chat. -/
def sampleChat : ChatDefaults Nat := ⟨7, 9⟩

/-- All settings, each with its value in an argument of its own. -/
def separateArgs : List String :=
  ["serve", "start", "--models-folder", "/m", "-p", "90", "--name", "a b", "-d", "-n", "a",
    "--log-file=-p"]

theorem reports_iff_separate : ∃ position next,
    (app sampleChat).parse (fun _ => none) (separateArgs.map bytes)
        ((app sampleChat).declare fun _ => .string []) = .ok (position, next) ∧
      (Reports plainPaths [] (listedHost separateArgs) (listedEntry separateArgs) next ↔
        Visible (listedEntry separateArgs) ∧
          Repeats sampleChat (fun _ => none) (separateArgs.map bytes)) :=
  ⟨_, _, rfl, reports_iff plainPaths [] sampleChat (fun _ => none) (listedHost separateArgs)
    (listedEntry separateArgs) List.mem_cons_self rfl (bytes "./cllama") (separateArgs.map bytes)
    rfl _ _ _ rfl rfl ⟨by decide, by decide⟩⟩

/-- A port that is attached to its option. -/
def attachedArgs : List String :=
  ["serve", "start", "--models-folder", "/m", "--port=9090"]

/-- The parser takes the port, and the list shows another one. -/
theorem not_reports_attached : ∃ position next,
    (app sampleChat).parse (fun _ => none) (attachedArgs.map bytes)
        ((app sampleChat).declare fun _ => .string []) = .ok (position, next) ∧
      position.fullName = bytes "serve start" ∧
      ¬Reports plainPaths [] (listedHost attachedArgs) (listedEntry attachedArgs) next := by
  refine ⟨_, _, rfl, rfl, ?_⟩
  rintro ⟨row, isRow, -, same⟩
  have shown : (listRow plainPaths [] (listedHost attachedArgs) (7, bytes "cllama")) =
      some [⟨7, { models := bytes "/m" }, bytes "-"⟩] := by
    decide
  cases isRow.symm.trans shown
  have samePort := same .port
  cases samePort

end Cllama.Cli
