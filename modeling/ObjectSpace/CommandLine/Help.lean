import ObjectSpace.CommandLine.Arguments

/-!
# Help texts
-/

namespace ObjectSpace
namespace CommandLine

structure HelpLine where
  left : String
  right : String

/-- Lines in two columns. -/
def columns (ls : List HelpLine) : List String :=
  let width := (ls.map (·.left.length)).foldl max 0
  ls.map fun l =>
    "  " ++ l.left ++ String.ofList (List.replicate (width + 2 - l.left.length) ' ') ++ l.right

structure HelpPage where
  about : String
  usage : String
  /-- Titles, each with what is listed under it. -/
  lists : List (String × List HelpLine)

def HelpPage.text (p : HelpPage) : String :=
  let body := p.lists.map fun (title, ls) => "" :: (title ++ ":") :: columns ls
  String.join (([p.about, "", "Usage: objwire " ++ p.usage] ++ body.flatten).map (· ++ "\n"))

def configLine : HelpLine :=
  ⟨"-c, --config <CONFIG>", "Read session settings from a TOML file instead of the environment"⟩

def helpLine : HelpLine := ⟨"-h, --help", "Print help"⟩

def commandPage : Option String → HelpPage
  | some "greet" =>
    ⟨"Call the greeter through a proxy", "greet [OPTIONS] <NAME>",
      [("Arguments", [⟨"<NAME>", "Who to greet"⟩]),
        ("Options", [⟨"    --object-id <OBJECT_ID>", "Which greeter object to call [default: 1]"⟩,
          ⟨"    --times <TIMES>", "How many times to call [default: 1]"⟩, configLine, helpLine])]⟩
  | some "demo" =>
    ⟨"Walk through a session: create, set, commit, call, reload", "demo [OPTIONS]",
      [("Options", [⟨"    --greeting <GREETING>",
          "Greeting stored on the greeter before it is called [default: Hello]"⟩,
        ⟨"    --name <NAME>", "[default: world]"⟩, configLine, helpLine])]⟩
  | some "config" =>
    ⟨"Print the effective session settings as TOML", "config [OPTIONS]",
      [("Options", [configLine, helpLine])]⟩
  | some "help" =>
    ⟨"Print this message or the help of the given subcommand(s)", "help [COMMAND]...",
      [("Arguments", [⟨"[COMMAND]...", "Print help for the subcommand(s)"⟩])]⟩
  | _ =>
    ⟨"objwire: typed object state and remote invocation", "[OPTIONS] <COMMAND>",
      [("Commands", [⟨"greet", "Call the greeter through a proxy"⟩,
          ⟨"demo", "Walk through a session: create, set, commit, call, reload"⟩,
          ⟨"config", "Print the effective session settings as TOML"⟩,
          ⟨"help", "Print this message or the help of the given subcommand(s)"⟩]),
        ("Options", [configLine, helpLine, ⟨"-V, --version", "Print version"⟩])]⟩

/-- What is printed where nothing is invoked. -/
def Stop.text : Stop → String
  | usage => "error: invalid arguments\n\nFor more information, try '--help'.\n"
  | version => "objwire 0.1.0\n"
  | help command => (commandPage command).text

end CommandLine
end ObjectSpace
