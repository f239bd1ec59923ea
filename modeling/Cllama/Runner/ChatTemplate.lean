import Cllama.Runner.Generate

/-!
# The prompt of a chat

`chat` has its messages rendered twice, first for the size of the buffer and then into it.
Only C strings reach llama.cpp, so the prompt is about the whole messages if none of them
contains NUL.  Without an override llama.cpp is left to its default, whatever template the
model carries.
-/

namespace Cllama.Runner

open Cllama.Library

/-! ## C strings -/

/-- Octets without NUL. -/
@[ext]
structure CText where
  text : Bytes
  free : (0 : UInt8) ∉ text

/-- The roles and contents of messages. -/
def octets (messages : List (CText × CText)) : List (Bytes × Bytes) :=
  messages.map fun message => (message.1.text, message.2.text)

theorem exists_octets {messages : List (Bytes × Bytes)}
    (free : ∀ message ∈ messages, (0 : UInt8) ∉ message.1 ∧ (0 : UInt8) ∉ message.2) :
    ∃ texts, octets texts = messages := by
  induction messages with
  | nil => exact ⟨[], rfl⟩
  | cons message messages ih =>
      rw [List.forall_mem_cons] at free
      rcases ih free.2 with ⟨texts, rfl⟩
      exact ⟨(⟨message.1, free.1.1⟩, ⟨message.2, free.1.2⟩) :: texts, rfl⟩

theorem free_of_octets {texts : List (CText × CText)} :
    ∀ message ∈ octets texts, (0 : UInt8) ∉ message.1 ∧ (0 : UInt8) ∉ message.2 := by
  intro message isMember
  rcases List.mem_map.mp isMember with ⟨text, -, rfl⟩
  exact ⟨text.1.free, text.2.free⟩

theorem octets_injective : Function.Injective octets := by
  apply List.map_injective_iff.mpr
  intro message other same
  exact Prod.ext (CText.ext (congrArg Prod.fst same)) (CText.ext (congrArg Prod.snd same))

theorem cString_zeros (count : Nat) : cString (List.replicate count 0) = [] := by
  cases count <;> rfl

/-- A buffer that is large enough holds the text it was filled with. -/
theorem cString_filled (text : CText) {capacity : Nat} (fits : text.text.length ≤ capacity) :
    cString (text.text.take capacity ++ List.replicate (capacity - text.text.length) 0) =
      text.text := by
  rw [List.take_of_length_le fits, cString,
    List.takeWhile_append_of_pos (forall_ne_of_not_mem text.free)]
  exact (congrArg (text.text ++ ·) (cString_zeros _)).trans (List.append_nil _)

/-! ## Templates -/

/-- How a template, or ChatML for a null pointer, renders messages; nothing is rendered
under a template that llama.cpp does not know. -/
abbrev Rendering := Option CText → List (CText × CText) → Option CText

/-- The template calls return the length of a rendering and copy at most as many octets of
it as the zeroed buffer takes. -/
structure Rendering.Applied (render : Rendering) (llama : Llama) : Prop where
  default : ∀ messages, (render none messages).isSome = true
  known : ∀ template messages text, render template messages = some text → ∀ capacity,
    llama.chatApplyTemplate (template.map CText.text) (octets messages) capacity =
      ((text.text.length : Int),
        text.text.take capacity ++ List.replicate (capacity - text.text.length) 0)
  unknown : ∀ template messages, render template messages = none → ∀ capacity,
    (llama.chatApplyTemplate (template.map CText.text) (octets messages) capacity).1 < 0 ∧
      (llama.chatApplyTemplate (template.map CText.text) (octets messages) capacity).2 =
        List.replicate capacity 0

/-- The prompt is the rendering of the messages under the override, without one under the
template of the model, and under ChatML if the model has none. -/
def RightPrompt (render : Rendering) (modelTemplate : Option CText) (override : Bytes)
    (messages : List (Bytes × Bytes)) (prompt : Bytes) : Prop :=
  ∃ template texts text,
    (if override = [] then template = modelTemplate
      else template.map CText.text = some override) ∧
    octets texts = messages ∧ render template texts = some text ∧ prompt = text.text

/-- Nothing contains NUL; an override is known to llama.cpp; and without one the template
of the model, if it has one, renders the messages as ChatML does. -/
structure Renderable (render : Rendering) (modelTemplate : Option CText) (override : Bytes)
    (messages : List (Bytes × Bytes)) : Prop where
  override_free : (0 : UInt8) ∉ override
  messages_free : ∀ message ∈ messages, (0 : UInt8) ∉ message.1 ∧ (0 : UInt8) ∉ message.2
  known : override ≠ [] → ∀ template : CText, template.text = override →
    ∀ texts, octets texts = messages → (render (some template) texts).isSome = true
  agrees : override = [] → ∀ template, modelTemplate = some template →
    ∀ texts, octets texts = messages → render (some template) texts = render none texts

/-- The messages as `chat` passes them on. -/
def handed (messages : List (Bytes × Bytes)) : List (Bytes × Bytes) :=
  messages.map fun message => (cString message.1, cString message.2)

theorem handed_octets (texts : List (CText × CText)) : handed (octets texts) = octets texts := by
  rw [handed, octets, List.map_map]
  apply List.map_congr_left
  intro text _
  exact Prod.ext (cString_of_not_mem text.1.free) (cString_of_not_mem text.2.free)

variable {llama : Llama} {render : Rendering}

/-- The prompt of a chat is a whole rendering, or empty under a template that is not known. -/
theorem chatPrompt_eq (applied : render.Applied llama) {override : Bytes} {template : Option CText}
    (isUsed : templateArg override = template.map CText.text) (texts : List (CText × CText)) :
    chatPrompt llama override (octets texts) =
      ((render template texts).map CText.text).getD [] := by
  rw [chatPrompt, isUsed]
  cases rendered : render template texts with
  | none =>
      rw [(applied.unknown template texts rendered _).2]
      exact cString_zeros _
  | some text =>
      rw [applied.known template texts text rendered, applied.known template texts text rendered]
      exact cString_filled text (by omega)

/-- Without an override, a chat is prompted with the default rendering. -/
theorem chatPrompt_default (applied : render.Applied llama) (texts : List (CText × CText)) :
    ∃ default, render none texts = some default ∧
      chatPrompt llama [] (octets texts) = default.text := by
  rcases Option.isSome_iff_exists.mp (applied.default texts) with ⟨default, isDefault⟩
  have isUsed : templateArg [] = (none : Option CText).map CText.text := rfl
  refine ⟨default, isDefault, ?_⟩
  rw [chatPrompt_eq applied isUsed, isDefault]
  rfl

/-- With an override that is known, a chat is prompted with its rendering. -/
theorem chatPrompt_override (applied : render.Applied llama) {template : CText}
    (given : template.text ≠ []) {texts : List (CText × CText)} {text : CText}
    (rendered : render (some template) texts = some text) :
    chatPrompt llama template.text (octets texts) = text.text := by
  have isUsed : templateArg template.text = (some template : Option CText).map CText.text := by
    rw [templateArg, if_neg given, cString_of_not_mem template.free]
    rfl
  rw [chatPrompt_eq applied isUsed, rendered]
  rfl

theorem renderable_of_rightPrompt (applied : render.Applied llama)
    {modelTemplate : Option CText} {override : Bytes} {messages : List (Bytes × Bytes)}
    (right : RightPrompt render modelTemplate override messages
      (chatPrompt llama override (handed messages))) :
    Renderable render modelTemplate override messages := by
  rcases right with ⟨template, texts, text, selected, rfl, rendered, isPrompt⟩
  rw [handed_octets] at isPrompt
  constructor
  · by_cases missing : override = []
    · rw [missing]
      exact List.not_mem_nil
    · rw [if_neg missing] at selected
      rcases Option.map_eq_some_iff.mp selected with ⟨known, -, rfl⟩
      exact known.free
  · exact free_of_octets
  · intro given known isKnown others same
    rw [if_neg given] at selected
    rcases Option.map_eq_some_iff.mp selected with ⟨chosen, rfl, isChosen⟩
    rw [CText.ext (isKnown.trans isChosen.symm), octets_injective same, rendered]
    rfl
  · intro missing own isOwn others same
    rw [if_pos missing, isOwn] at selected
    rcases chatPrompt_default applied texts with ⟨default, isDefault, prompted⟩
    rw [missing, prompted] at isPrompt
    rw [octets_injective same, ← selected, rendered, isDefault, CText.ext isPrompt]

theorem rightPrompt_of_renderable (applied : render.Applied llama)
    {modelTemplate : Option CText} {override : Bytes} {messages : List (Bytes × Bytes)}
    (fits : Renderable render modelTemplate override messages) :
    RightPrompt render modelTemplate override messages
      (chatPrompt llama override (handed messages)) := by
  rcases exists_octets fits.messages_free with ⟨texts, rfl⟩
  rw [handed_octets]
  by_cases missing : override = []
  · rcases chatPrompt_default applied texts with ⟨default, isDefault, prompted⟩
    refine ⟨modelTemplate, texts, default, by rw [if_pos missing], rfl, ?_, ?_⟩
    · cases isOwn : modelTemplate with
      | none => exact isDefault
      | some own => rw [fits.agrees missing own isOwn texts rfl, isDefault]
    · rw [missing, prompted]
  · rcases Option.isSome_iff_exists.mp (fits.known missing ⟨override, fits.override_free⟩ rfl
      texts rfl) with ⟨text, rendered⟩
    refine ⟨some ⟨override, fits.override_free⟩, texts, text, by rw [if_neg missing]; rfl, rfl,
      rendered, ?_⟩
    exact @chatPrompt_override _ _ applied ⟨override, fits.override_free⟩ missing texts text
      rendered

/-- The prompt of a chat is the right one exactly when nothing contains NUL, an override is
known, and ChatML does for a model that has a template of its own. -/
theorem rightPrompt_iff (applied : render.Applied llama) (modelTemplate : Option CText)
    (override : Bytes) (messages : List (Bytes × Bytes)) :
    RightPrompt render modelTemplate override messages
        (chatPrompt llama override (handed messages)) ↔
      Renderable render modelTemplate override messages :=
  ⟨renderable_of_rightPrompt applied, rightPrompt_of_renderable applied⟩

/-! ## Chats -/

/-- The values in a JSON text are messages with these roles and contents. -/
def Conversation (messagesJson : Json) (messages : List (Bytes × Bytes)) : Prop :=
  List.Forall₂ (fun message pair => message.find "role" = some (.str pair.1) ∧
    message.find "content" = some (.str pair.2)) (elements messagesJson) messages

theorem readMessages_conversation {typeError : Json → Bytes} {items : List Json}
    {messages : List (Bytes × Bytes)}
    (conversation : List.Forall₂ (fun message pair => message.find "role" = some (.str pair.1) ∧
      message.find "content" = some (.str pair.2)) items messages) :
    readMessages typeError items = .ok (handed messages) := by
  induction conversation with
  | nil => rfl
  | cons isMessage _ ih =>
      rw [readMessages, isMessage.1, isMessage.2, ih]
      rfl

/-- A chat generates from the rendering of its messages under the template that is
documented exactly when nothing contains NUL, an override is known, and a model that has a
template of its own renders the messages as ChatML does. -/
theorem chat_rightPrompt_iff (applied : render.Applied llama) (modelTemplate : Option CText)
    (typeError : Json → Bytes) {messagesJson : Json} {messages : List (Bytes × Bytes)}
    (conversation : Conversation messagesJson messages) (opts : CompletionOpts)
    (override : Bytes) :
    chat llama typeError messagesJson opts override =
        generate llama (chatPrompt llama override (handed messages)) opts true ∧
      (RightPrompt render modelTemplate override messages
          (chatPrompt llama override (handed messages)) ↔
        Renderable render modelTemplate override messages) := by
  refine ⟨?_, rightPrompt_iff applied modelTemplate override messages⟩
  rw [chat, readMessages_conversation conversation]

/-- Templates that are put in front of the contents, with a short one for ChatML. -/
def prefixed (template : Option Bytes) (messages : List (Bytes × Bytes)) : Bytes :=
  template.getD (bytes "<|im_start|>") ++ messages.flatMap Prod.snd

theorem prefixed_free (template : Option CText) (texts : List (CText × CText)) :
    (0 : UInt8) ∉ prefixed (template.map CText.text) (octets texts) := by
  intro isNul
  rcases List.mem_append.mp isNul with inTemplate | inMessages
  · cases template with
    | none => exact absurd inTemplate (by decide)
    | some template => exact template.free inTemplate
  · rcases List.mem_flatMap.mp inMessages with ⟨message, isMember, isNul⟩
    exact (free_of_octets message isMember).2 isNul

def prefixing : Rendering :=
  fun template texts =>
    some ⟨prefixed (template.map CText.text) (octets texts), prefixed_free template texts⟩

/-- A library that renders so, and is asked for nothing else. -/
def prefixingLlama : Llama where
  Context := Unit
  Sampler := Unit
  Token := Unit
  initFromModel _ := .ok none
  nCtx _ := 2048
  tokenize _ _ _ := .ok (0, [])
  decode _ _ := .ok (0, ())
  sampler _ _ _ := .ok ()
  sample _ _ := .ok ((), ())
  isEog _ := true
  tokenToPiece _ _ := (0, [])
  chatApplyTemplate template messages capacity :=
    ((prefixed template messages).length, (prefixed template messages).take capacity ++
      List.replicate (capacity - (prefixed template messages).length) 0)

theorem prefixing_applied : prefixing.Applied prefixingLlama where
  default _ := rfl
  known template messages text rendered capacity := by
    cases rendered
    rfl
  unknown _ _ rejected := nomatch rejected

/-- The one message of a user. -/
def greeting : Json :=
  .arr [.obj [(bytes "content", .str (bytes "hi")), (bytes "role", .str (bytes "user"))]]

theorem greeting_conversation : Conversation greeting [(bytes "user", bytes "hi")] := by
  rw [Conversation]
  exact .cons ⟨rfl, rfl⟩ .nil

theorem chat_rightPrompt_iff_override :
    chat prefixingLlama (fun _ => []) greeting {} (bytes "[INST]") =
        generate prefixingLlama (chatPrompt prefixingLlama (bytes "[INST]")
          (handed [(bytes "user", bytes "hi")])) {} true ∧
      (RightPrompt prefixing none (bytes "[INST]") [(bytes "user", bytes "hi")]
          (chatPrompt prefixingLlama (bytes "[INST]") (handed [(bytes "user", bytes "hi")])) ↔
        Renderable prefixing none (bytes "[INST]") [(bytes "user", bytes "hi")]) :=
  chat_rightPrompt_iff prefixing_applied none (fun _ => []) greeting_conversation {}
    (bytes "[INST]")

/-- A model with a template of its own is prompted with ChatML. -/
theorem not_rightPrompt_of_modelTemplate :
    ¬RightPrompt prefixing (some ⟨bytes "[INST]", by decide⟩) []
      [(bytes "user", bytes "hi")]
      (chatPrompt prefixingLlama [] (handed [(bytes "user", bytes "hi")])) := by
  rw [rightPrompt_iff prefixing_applied]
  intro fits
  have same := fits.agrees rfl _ rfl
    [(⟨bytes "user", by decide⟩, ⟨bytes "hi", by decide⟩)] rfl
  have texts := congrArg (Option.map CText.text) same
  exact absurd texts (by decide)

end Cllama.Runner
