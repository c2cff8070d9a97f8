import DocWatch.Text.Blank
import DocWatch.Text.Digits
import DocWatch.Text.Occurrence

/-!
# The command line

A command line is words: options with a value behind them or after an equals
sign, and words that stand for themselves. The words of a command up to its
subcommand, and the words behind that, are read by rules of their own; only the
option for the configuration may stand anywhere, and the innermost counts. A
word with a hyphen in front is an option, unless two hyphens stand before it.
-/

namespace DocWatch.Command

/-- How clients reach the server. -/
inductive Transport where
  | stdio
  | http
  deriving DecidableEq, Repr

/-- The name of a transport. -/
def Transport.name : Transport → String
  | .stdio => "stdio"
  | .http => "http"

/-- What is to be done. -/
inductive Action where
  | serve (transport : Option Transport) (bind : Option String)
  | list
  | read (file : String)
  | search (query : String) (limit : Nat)
  | check
  | refresh
  | query (expr : String) (time : Option String)
  deriving DecidableEq, Repr

/-- What a command line asks for. -/
inductive Invocation where
  | run (config : Option String) (action : Action)
  | showVersion
  | showHelp
  deriving DecidableEq, Repr

/-- The words that one command takes. -/
structure Grammar where
  /-- Options with a value. -/
  options : List String
  /-- How many words may stand for themselves. -/
  operands : Nat
  subcommands : List String
  /-- Whether the version can be asked for. -/
  hasVersion : Bool

/-- The words of one command, read. -/
structure Words where
  /-- The options with their values. -/
  options : List (String × String)
  operands : List String
  /-- The subcommand, and the words behind it. -/
  rest : Option (String × List String)
  deriving DecidableEq, Repr

/-- No words. -/
def Words.empty : Words := ⟨[], [], none⟩

/-- Why reading ends before the words do. -/
inductive Halt where
  | misuse
  | version
  | help
  deriving DecidableEq, Repr

/-- A word, by its form. -/
inductive Shape where
  /-- Two hyphens: all words behind them stand for themselves. -/
  | divider
  /-- An option by its name, perhaps with a value after an equals sign. -/
  | long (name : String) (value : Option String)
  /-- Letters behind one hyphen. -/
  | short (letters : List Char)
  | plain
  deriving DecidableEq, Repr

/-- The form of a word. -/
def shapeOf (word : String) : Shape :=
  match word.toList with
  | ['-', '-'] => .divider
  | '-' :: '-' :: body =>
      match Text.splitOnce '=' body with
      | some (name, value) => .long (String.ofList name) (some (String.ofList value))
      | none => .long (String.ofList body) none
  | ['-'] => .plain
  | '-' :: letters => .short letters
  | _ => .plain

/-- Adds an option, which must not have been given before. -/
def Words.withOption (w : Words) (name value : String) : Except Halt Words :=
  if w.options.any fun o => o.1 = name then .error .misuse
  else .ok { w with options := w.options ++ [(name, value)] }

/-- Adds a word that stands for itself, if there is room for one. -/
def Words.withOperand (g : Grammar) (w : Words) (word : String) : Except Halt Words :=
  if w.operands.length < g.operands then .ok { w with operands := w.operands ++ [word] }
  else .error .misuse

/-- Adds words that all stand for themselves. -/
def Words.withOperands (g : Grammar) (w : Words) : List String → Except Halt Words
  | [] => .ok w
  | word :: rest => (w.withOperand g word).bind fun w => w.withOperands g rest

/-- Reads the words of one command. -/
def Words.read (g : Grammar) (w : Words) : List String → Except Halt Words
  | [] => .ok w
  | word :: rest =>
      match shapeOf word with
      | .divider => w.withOperands g rest
      | .short letters =>
          if letters.head? = some 'V' ∧ g.hasVersion then .error .version
          else if letters.head? = some 'h' then .error .help
          else .error .misuse
      | .long name (some value) =>
          if g.options.contains name then (w.withOption name value).bind fun w => w.read g rest
          else .error .misuse
      | .long name none =>
          if name = "version" ∧ g.hasVersion then .error .version
          else if name = "help" then .error .help
          else if g.options.contains name then
            match rest with
            | value :: behind =>
                if shapeOf value = .plain then
                  (w.withOption name value).bind fun w => w.read g behind
                else .error .misuse
            | [] => .error .misuse
          else .error .misuse
      | .plain =>
          if g.subcommands.contains word then .ok { w with rest := some (word, rest) }
          else (w.withOperand g word).bind fun w => w.read g rest

/-- The value of an option. -/
def Words.option? (w : Words) (name : String) : Option String :=
  (w.options.find? fun o => o.1 = name).map Prod.snd

/-- The path of the configuration, if it is given; an empty one is misuse. An
inner command passes over what an outer one was told. -/
def Words.config (w : Words) (outer : Option String) : Except Halt (Option String) :=
  match w.option? "config" with
  | none => .ok outer
  | some path => if path = "" then .error .misuse else .ok (some path)

/-- A transport by its name. -/
def Transport.parse? (name : String) : Option Transport :=
  if name = "stdio" then some .stdio else if name = "http" then some .http else none

/-- A count that fits 64 bits. -/
def count? (s : String) : Option Nat :=
  (Text.plainDigits? s.toList).bind fun digits =>
    let n := Text.digitsValue digits
    if n < Nat.pow 2 64 then some n else none

/-- A command without subcommands: its options and how many words it takes. -/
def leaf (options : List String) (operands : Nat) : Grammar :=
  ⟨"config" :: options, operands, [], false⟩

/-- Reads the words of a command without subcommands: the path of the
configuration, and the words. All of its operands must be there. -/
def readLeaf (g : Grammar) (outer : Option String) (words : List String) :
    Except Halt (Option String × Words) := do
  let w ← Words.empty.read g words
  let config ← w.config outer
  if w.operands.length = g.operands then .ok (config, w) else .error .misuse

/-- What an option was given as, read further; misuse if it cannot be. -/
def readOption {α : Type} (w : Words) (name : String) (parse : String → Option α) :
    Except Halt (Option α) :=
  match w.option? name with
  | none => .ok none
  | some s =>
      match parse s with
      | some a => .ok (some a)
      | none => .error .misuse

/-- How many results a search gives unless it is told otherwise. -/
def usualLimit : Nat := 10

/-- Reads what is to be done with the documents. -/
def readDocs (outer : Option String) (name : String) (words : List String) :
    Except Halt Invocation :=
  match name with
  | "list" => do
      let (config, _) ← readLeaf (leaf [] 0) outer words
      return .run config .list
  | "read" => do
      let (config, w) ← readLeaf (leaf [] 1) outer words
      return .run config (.read (w.operands.headD ""))
  | "search" => do
      let (config, w) ← readLeaf (leaf ["limit"] 1) outer words
      let limit ← readOption w "limit" count?
      return .run config (.search (w.operands.headD "") (limit.getD usualLimit))
  | "check" => do
      let (config, _) ← readLeaf (leaf [] 0) outer words
      return .run config .check
  | "refresh" => do
      let (config, _) ← readLeaf (leaf [] 0) outer words
      return .run config .refresh
  | _ => .error .help

/-- The command for the documents. -/
def docsGrammar : Grammar :=
  ⟨["config"], 0, ["list", "read", "search", "check", "refresh", "help"], false⟩

/-- Reads a command. -/
def readCommand (outer : Option String) (name : String) (words : List String) :
    Except Halt Invocation :=
  match name with
  | "serve" => do
      let (config, w) ← readLeaf (leaf ["transport", "bind"] 0) outer words
      let transport ← readOption w "transport" Transport.parse?
      return .run config (.serve transport (w.option? "bind"))
  | "docs" => do
      let w ← Words.empty.read docsGrammar words
      let config ← w.config outer
      match w.rest with
      | some (inner, behind) => readDocs config inner behind
      | none => .error .misuse
  | "query" => do
      let (config, w) ← readLeaf (leaf ["time"] 1) outer words
      return .run config (.query (w.operands.headD "") (w.option? "time"))
  | _ => .error .help

/-- The program itself. -/
def rootGrammar : Grammar :=
  ⟨["config"], 0, ["serve", "docs", "query", "help"], true⟩

/-- Reads a whole command line; nothing if it is misused. -/
def Invocation.parse? (words : List String) : Option Invocation :=
  let read : Except Halt Invocation := do
    let w ← Words.empty.read rootGrammar words
    let config ← w.config none
    match w.rest with
    | some (name, behind) => readCommand config name behind
    | none => .error .misuse
  match read with
  | .ok i => some i
  | .error .version => some .showVersion
  | .error .help => some .showHelp
  | .error .misuse => none

end DocWatch.Command
