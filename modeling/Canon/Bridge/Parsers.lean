import Canon.Lib.Json
import Canon.Lib.Text

/-! # Frames of a chat page

    `parsers.rs`: what one inbound frame of a site means and how frames are put
    together to a response.  The JSON parser is a parameter; texts are lists of
    characters.
-/

namespace Canon.Bridge

/-! ### Sites -/

inductive SiteType where
  | chatGptPrivate
  | chatGptGroup
  | gemini
  | unknown
deriving DecidableEq, Repr

def startsWith (url base : String) : Bool := base.toList.isPrefixOf url.toList

def isChatgptGgUrl (url : String) : Bool := startsWith url "https://chatgpt.com/gg/"

def isChatgptUrl (url : String) : Bool :=
  startsWith url "https://chatgpt.com/" || startsWith url "https://chat.openai.com/"

def isGeminiUrl (url : String) : Bool := startsWith url "https://gemini.google.com/"

def SiteType.fromUrl (url : String) : SiteType :=
  if isChatgptGgUrl url then .chatGptGroup
  else if isChatgptUrl url then .chatGptPrivate
  else if isGeminiUrl url then .gemini
  else .unknown

inductive FrameResult where
  | executionDelta (text : Text)
  | snapshot (text : Text)
  | done
  | ignore
deriving DecidableEq, Repr

/-! ### Fenced JSON -/

def fence : Text := "```".toList

def jsonFence : Text := "```json".toList

/-- From the opening fence to the last fence behind it. -/
def extractFencedJson (text : Text) : Option Text :=
  (Text.find? jsonFence text).bind fun start =>
    let rest := text.drop start
    (Text.rfind? fence rest).bind fun stop =>
      -- The only fence is the opening one.
      if stop ≤ 6 then none else some (rest.take (stop + 3))

def findFencedJsonInValue : Json → Option Text
  | .str s => extractFencedJson s.toList
  | .arr items => inItems items
  | .obj entries => inEntries entries
  | _ => none
where
  inItems : List Json → Option Text
    | [] => none
    | v :: rest => (findFencedJsonInValue v).or (inItems rest)
  inEntries : List (String × Json) → Option Text
    | [] => none
    | (_, v) :: rest => (findFencedJsonInValue v).or (inEntries rest)

section Classify

variable (parse : Text → Option Json)

/-- Complete as soon as what stands between the fences is JSON. -/
def tryExtractCompleteFencedJson (raw : Text) : Option Text :=
  (Text.find? jsonFence raw).bind fun start =>
    let afterFence := raw.drop (start + 7)
    (Text.rfind? fence afterFence).bind fun stop =>
      -- Nothing stands between the fences.
      if stop = 0 then none
      else
        let inner := Text.trim (afterFence.take stop)
        if (parse inner).isSome then some (jsonFence ++ '\n' :: inner ++ '\n' :: fence) else none

/-- The data of a server-sent event line. -/
def frameData (raw : Text) : Text :=
  Text.trim ((Text.stripPrefix? "data: ".toList raw).getD raw)

/-! ### Private chats -/

def strField (key : String) (v : Json) : Option String := (v.get key).bind Json.asStr

def textField (key : String) (v : Json) : Option Text := (v.get key).bind Json.asText

/-- The first part of a message's content. -/
def firstPart (v : Json) : Text :=
  ((((v.get "content").bind (·.get "parts")).bind Json.asArray).bind List.head?
    |>.bind Json.asText).getD []

/-- Whether a patch path is one into the parts of a message. -/
def intoParts (v : Json) : Bool := Text.contains "parts".toList ((textField "p" v).getD [])

/-- What the append operations among `items` add to the parts. -/
def appendedParts (items : List Json) : Text :=
  items.flatMap fun item =>
    if strField "o" item = some "append" && intoParts item then (textField "v" item).getD [] else []

def nonEmpty (text : Option Text) : Option Text := text.filter (· ≠ [])

/-- The text an operation of the delta encoding adds. -/
def operationDelta (v : Json) : Option Text :=
  match strField "o" v with
  | some "append" => if intoParts v then nonEmpty (textField "v" v) else none
  | some "patch" => nonEmpty (((v.get "v").bind Json.asArray).map appendedParts)
  | _ => none

def deltaOr (text : Option Text) (rest : FrameResult) : FrameResult :=
  match text with
  | some t => .executionDelta t
  | none => rest

/-- The checks on an object, in this order. -/
def classifyChatgptObject (v : Json) : FrameResult :=
  if strField "type" v = some "message_stream_complete" then .done
  else if strField "type" v = some "message" && firstPart v ≠ [] then .snapshot (firstPart v)
  else if strField "object" v = some "chat.completion.chunk" then
    let content := (((v.get "choices").bind Json.asArray).bind List.head?).bind fun c =>
      (c.get "delta").bind (textField "content")
    deltaOr (nonEmpty content) .ignore
  else
    deltaOr (nonEmpty (textField "delta" v)) <|
    deltaOr (operationDelta v) <|
    deltaOr (nonEmpty (textField "v" v)) <|
    deltaOr (nonEmpty (((v.get "v").bind Json.asArray).map appendedParts)) .ignore

def classifyChatgptPrivate (raw : Text) : FrameResult :=
  let data := frameData raw
  if data = [] then .ignore
  else if data = "[DONE]".toList then .done
  else
    match parse data with
    | none => ((extractFencedJson data).map .snapshot).getD .ignore
    | some v =>
      match findFencedJsonInValue v with
      -- A fenced block anywhere in the value is the whole answer.
      | some fenced => .snapshot fenced
      | none => if v.asObject.isSome then classifyChatgptObject v else .ignore

/-! ### Group chats -/

/-- The final text among the raw messages of an assistant; `some []` stands for an
    assistant that said nothing. -/
def finalText (rawMessages : List Json) : Option Text :=
  let own := rawMessages.filter fun m =>
    ((m.get "author").bind (strField "role")).getD "" = "assistant" &&
      (strField "channel" m).getD "" = "final"
  match own.find? (firstPart · ≠ []) with
  | some m => some (firstPart m)
  | none => if own = [] then none else some []

/-- What one envelope ends the response with, if it does. -/
def classifyEnvelope (envelope : Json) : Option Text :=
  if strField "type" envelope ≠ some "message" then none
  else
    (envelope.get "payload").bind fun payload =>
      let message := (payload.get "payload").bind (·.get "message")
      if strField "type" payload = some "calpico-message-update" then
        message.bind fun msg =>
          let reaction := ((msg.get "reactions").bind (textField "assistant")).getD []
          if reaction ≠ [] then
            some ("assistant reaction-only terminal frame: ".toList ++ reaction)
          else none
      else if strField "type" payload ≠ some "calpico-message-add" then none
      else
        message.bind fun msg =>
          if strField "role" msg ≠ some "assistant" then none
          else
            ((msg.get "raw_messages").bind Json.asArray).bind fun rawMessages =>
              (finalText rawMessages).map fun text =>
                if text ≠ [] then text else "LLM error: empty assistant response body".toList

def classifyCalpicoArray (arr : List Json) : FrameResult :=
  ((arr.findSome? classifyEnvelope).map .snapshot).getD .ignore

def classifyChatgptGroup (raw : Text) : FrameResult :=
  let data := frameData raw
  if data = [] then .ignore
  else
    match (parse data).bind Json.asArray with
    | some arr => classifyCalpicoArray arr
    | none => .ignore

/-! ### Gemini -/

def stripLeadingLengthLine (input : Text) : Text :=
  let rest := input.dropWhile Char.isDigit
  match rest with
  | c :: _ =>
    if (c = '\n' || c = '\r') && rest.length < input.length then
      rest.dropWhile fun c => c = '\r' || c = '\n'
    else input
  | [] => input

/-- The fenced strings inside a value, down to depth twelve; a string that is JSON
    itself is opened.  Items are visited front to back and the values of an object
    back to front, as the work stack of the source has them. -/
def collectGeminiFragments : (fuel : Nat) → Json → Text
  | 0, _ => []
  | fuel + 1, v =>
    match v with
    | .str s =>
      let text := s.toList
      let inner := if text.head? = some '{' || text.head? = some '[' then parse text else none
      match inner with
      | some inner => collectGeminiFragments fuel inner
      | none => if Text.contains jsonFence text then text else []
    | .arr items => items.flatMap (collectGeminiFragments fuel)
    | .obj entries => (entries.map (·.2)).reverse.flatMap (collectGeminiFragments fuel)
    | _ => []

def classifyGemini (raw : Text) : FrameResult :=
  let data := frameData raw
  if data = [] then .ignore
  else
    let data := stripLeadingLengthLine data
    match parse data with
    | some v =>
      let out := collectGeminiFragments parse 13 v
      if out = [] then .ignore
      else if Text.contains jsonFence out then .snapshot out
      else .executionDelta out
    | none => ((extractFencedJson data).map .snapshot).getD .ignore

def classifyFrame (site : SiteType) (raw : Text) : FrameResult :=
  match site with
  | .chatGptPrivate => classifyChatgptPrivate parse raw
  | .chatGptGroup => classifyChatgptGroup parse raw
  | .gemini => classifyGemini parse raw
  | .unknown => .ignore

end Classify

/-! ### Assembly -/

structure FrameAssembler where
  site : SiteType
  deltas : List Text
  raw : Text
deriving DecidableEq, Repr

namespace FrameAssembler

def new (site : SiteType) : FrameAssembler := { site := site, deltas := [], raw := [] }

def setSite (asm : FrameAssembler) (site : SiteType) : FrameAssembler := { asm with site := site }

def reset (asm : FrameAssembler) : FrameAssembler := { asm with deltas := [], raw := [] }

/-- The buffer of a site that is done when its fenced JSON is complete. -/
def withRaw (parse : Text → Option Json) (asm : FrameAssembler) (raw : Text) :
    FrameAssembler × Option Text :=
  match tryExtractCompleteFencedJson parse raw with
  | some fenced => (asm.reset, some fenced)
  | none => ({ asm with raw := raw }, none)

/-- One more frame; the answer is the response once it is complete. -/
def push (parse : Text → Option Json) (asm : FrameAssembler) (payload : Text) :
    FrameAssembler × Option Text :=
  match asm.site, classifyFrame parse asm.site payload with
  -- A snapshot replaces the buffer, a delta goes behind it.
  | .gemini, .snapshot text => asm.withRaw parse text
  | .gemini, .executionDelta text => asm.withRaw parse (asm.raw ++ text)
  | .gemini, _ => (asm, none)
  | _, .executionDelta text => ({ asm with deltas := asm.deltas ++ [text] }, none)
  | _, .snapshot text => (asm.reset, some text)
  | _, .done =>
    -- A stream that ends without text is no response.
    let assembled := asm.deltas.flatten
    (asm.reset, if assembled = [] then none else some assembled)
  | _, .ignore => (asm, none)

@[simp] theorem reset_eq_new (asm : FrameAssembler) : asm.reset = new asm.site := rfl

end FrameAssembler

end Canon.Bridge
