import ObjectSpace.Table
import ObjectSpace.Text.Integer

/-!
# Command line arguments

Words are read from left to right: options with their values, a command, and the options and operands
of that command. An option is given at most once on each side of the command. Asking for help or for
the version ends the reading at once.

A value that is a word of its own waits to be looked at until the next option on the same side of the
command, or else until the end. So help on a command can be had whatever the last value in front of
it is.
-/

namespace ObjectSpace
namespace CommandLine

inductive Command where
  | greet (name : String) (objectId : UInt64) (times : UInt32)
  | demo (greeting name : String)
  | settings

structure Invocation where
  command : Command
  /-- Where settings are read from instead of the environment. -/
  settingsFile : Option String

/-- Why there is nothing to invoke. -/
inductive Stop where
  | usage
  | version
  /-- Help on a command, or on all of them. -/
  | help (command : Option String)
  deriving DecidableEq

/-- What may be given on one side of the command. -/
structure Level where
  /-- The command that the level belongs to; there is none in front of it. -/
  command : Option String
  options : List String
  operands : Nat

namespace Level

def front : Level := ⟨none, ["config"], 0⟩

def all : List (String × Level) :=
  [("greet", ⟨some "greet", ["config", "object-id", "times"], 1⟩),
    ("demo", ⟨some "demo", ["config", "greeting", "name"], 0⟩),
    ("config", ⟨some "config", ["config"], 0⟩)]

end Level

def objectId? (s : String) : Option UInt64 :=
  (Integer.unsignedOfChars? s.toList).bind fun n => uint64? n

/-- A negative zero is a zero. -/
def times? (s : String) : Option UInt32 := (Integer.ofChars? s.toList).bind uint32?

/-- Whether an option can have the value. -/
def isValue (option value : String) : Bool :=
  match option with
  | "config" => !value.isEmpty
  | "object-id" => (objectId? value).isSome
  | "times" => (times? value).isSome
  | _ => true

structure Given where
  options : Table String String
  /-- The last option, if its value waits to be looked at. -/
  waiting : Option (String × String)
  operands : List String

namespace Given

def empty : Given := ⟨{}, none, []⟩

def addOption (g : Given) (option value : String) : Except Stop Given :=
  if g.options.contains option || !isValue option value then .error .usage
  else .ok { g with options := g.options.insert option value }

/-- Looks at the value that waits. -/
def settle (g : Given) : Except Stop Given :=
  match g.waiting with
  | some (option, value) => { g with waiting := none }.addOption option value
  | none => .ok g

def addOperand (l : Level) (g : Given) (operand : String) : Except Stop Given :=
  if g.operands.length < l.operands then .ok { g with operands := g.operands ++ [operand] }
  else .error .usage

end Given

/-- One word, by how it begins. -/
inductive Word where
  | terminator
  | long (name : String) (value : Option String)
  | short (letter : Char) (rest : List Char)
  | plain (s : String)

def Word.of (s : String) : Word :=
  match s.toList with
  | ['-', '-'] => .terminator
  | '-' :: '-' :: cs =>
    let name := String.ofList (cs.takeWhile (· != '='))
    match cs.dropWhile (· != '=') with
    | _ :: value => .long name (some (String.ofList value))
    | [] => .long name none
  | '-' :: c :: cs => .short c cs
  | _ => .plain s

def Word.isPlain : Word → Bool
  | plain _ => true
  | _ => false

/-- What a word asks for. -/
inductive Part where
  | stop (s : Stop)
  | operand (s : String)
  | operandsOnly
  | option (name : String) (value : Option String)

/-- A value that stands in the word itself, perhaps behind a sign. -/
def attached : List Char → Option String
  | [] => none
  | '=' :: cs => some (String.ofList cs)
  | cs => some (String.ofList cs)

def Level.part (l : Level) : Word → Part
  | .terminator => .operandsOnly
  | .plain s => .operand s
  | .long "help" none | .short 'h' _ => .stop (.help l.command)
  | .long "version" none | .short 'V' _ => .stop (if l.command.isNone then .version else .usage)
  | .long name value => if l.options.contains name then .option name value else .stop .usage
  | .short 'c' cs => .option "config" (attached cs)
  | .short _ _ => .stop .usage

/-- Reads words up to the command, or up to the end where the level is that of a command. -/
def Level.read (l : Level) (g : Given) : List String → Except Stop (Given × List String)
  | [] => .ok (g, [])
  | w :: ws =>
    match l.part (.of w) with
    | .stop s => do
      let _ ← g.settle
      .error s
    | .operandsOnly => (ws.foldlM (Given.addOperand l) g).map (·, [])
    | .operand s =>
      if l.command.isNone then .ok (g, w :: ws)
      else do l.read (← g.addOperand l s) ws
    | .option name (some value) => do l.read (← (← g.settle).addOption name value) ws
    | .option name none =>
      match ws with
      | value :: rest =>
        if (Word.of value).isPlain then do
          let g ← g.settle
          l.read { g with waiting := some (name, value) } rest
        else .error .usage
      | [] => .error .usage

/-- The command that was given with these options and operands. -/
def command (name : String) (g : Given) : Except Stop Command :=
  match name, g.operands with
  | "greet", [who] =>
    .ok (.greet who (((g.options.get? "object-id").bind objectId?).getD 1)
      (((g.options.get? "times").bind times?).getD 1))
  | "demo", [] =>
    .ok (.demo ((g.options.get? "greeting").getD "Hello") ((g.options.get? "name").getD "world"))
  | "config", [] => .ok .settings
  | _, _ => .error .usage

def help : List String → Stop
  | [] => .help none
  | [name] =>
    if name == "help" || (Level.all.lookup name).isSome then .help (some name) else .usage
  | _ => .usage

/-- Of two files the one behind the command is read. -/
def parse (words : List String) : Except Stop Invocation := do
  match ← Level.front.read .empty words with
  | (_, "help" :: rest) => .error (help rest)
  | (front, name :: rest) =>
    match Level.all.lookup name with
    | none => .error .usage
    | some l =>
      let (g, _) ← l.read .empty rest
      let g ← g.settle
      let c ← command name g
      let front ← front.settle
      return ⟨c, (g.options.get? "config").or (front.options.get? "config")⟩
  | (_, []) => .error .usage

end CommandLine
end ObjectSpace
