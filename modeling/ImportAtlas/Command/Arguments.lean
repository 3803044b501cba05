import ImportAtlas.Command.Basic

/-! # Reading arguments

Arguments are read from left to right, and the first one that asks for help or is not understood
decides. A subcommand stands before its options and its operand, which come in any order. An option
is a word after two hyphens or a letter after one; letters may be put together. A path that an
option calls for is the next argument, or follows an equals sign, or follows the letter directly. No
option is given twice and no path is empty. After two hyphens alone every argument is an operand.

The draft of an invocation is what has been understood so far.
-/

namespace ImportAtlas.Command

/-- An argument as it is given. -/
abbrev Argument := List Char

/-- The subcommands. -/
inductive Action where
  | build
  | render
  | stats
deriving DecidableEq, Repr

/-- The options of the program and its subcommands. -/
inductive Choice where
  | verbose
  | help
  | version
  | output
  | settings
  | image
deriving DecidableEq, Repr

namespace Action

/-- The name of a subcommand. -/
def word : Action → String
  | .build => "build"
  | .render => "render"
  | .stats => "stats"

/-- All subcommands. -/
def all : List Action :=
  [.build, .render, .stats]

/-- The subcommand that an argument names. -/
def ofArgument? (argument : Argument) : Option Action :=
  all.find? fun action => action.word.toList == argument

/-- The options that may follow a subcommand. -/
def choices : Action → List Choice
  | .build => [.verbose, .help, .output, .settings]
  | .render => [.verbose, .help, .output, .image]
  | .stats => [.verbose, .help, .settings]

end Action

namespace Choice

/-- The options that may stand before a subcommand. -/
def beforeAction : List Choice :=
  [.verbose, .help, .version]

/-- The word for an option. -/
def word : Choice → String
  | .verbose => "verbose"
  | .help => "help"
  | .version => "version"
  | .output => "output"
  | .settings => "config"
  | .image => "png"

/-- The letter for an option. -/
def letter? : Choice → Option Char
  | .verbose => some 'v'
  | .help => some 'h'
  | .version => some 'V'
  | .output => some 'o'
  | .settings => some 'c'
  | .image => none

/-- Whether an option calls for a path. -/
def takesPath : Choice → Bool
  | .output => true
  | .settings => true
  | _ => false

/-- The option among some that a word stands for. -/
def ofWord? (choices : List Choice) (word : List Char) : Option Choice :=
  choices.find? fun choice => choice.word.toList == word

/-- The option among some that a letter stands for. -/
def ofLetter? (choices : List Choice) (letter : Char) : Option Choice :=
  choices.find? fun choice => choice.letter? == some letter

end Choice

/-- What has been understood so far. -/
structure Draft where
  verbose : Bool
  image : Bool
  output : Option Path
  settings : Option Path
  operand : Option Path
deriving DecidableEq, Repr

/-- What the next argument is taken for. -/
inductive Expected where
  /-- An option or an operand. -/
  | anything
  /-- The path that an option calls for. -/
  | pathOf (choice : Choice)
  /-- An operand, however it begins. -/
  | operand
deriving DecidableEq, Repr

/-- Puts a path where there is none yet. -/
def fill? (place : Option Path) (path : Argument) : Option (Option Path) :=
  if place.isSome || path.isEmpty then none else some (some ⟨path⟩)

namespace Draft

/-- The draft of an invocation without arguments. -/
def empty : Draft :=
  ⟨false, false, none, none, none⟩

/-- Takes an option that calls for no path. -/
def raise (draft : Draft) (choice : Choice) : Except Refusal Draft :=
  match choice with
  | .help => .error .help
  | .version => .error .version
  | .verbose => if draft.verbose then .error .usage else .ok { draft with verbose := true }
  | .image => if draft.image then .error .usage else .ok { draft with image := true }
  | _ => .error .usage

/-- Takes an option and the path that it calls for. -/
def set (draft : Draft) (choice : Choice) (path : Argument) : Except Refusal Draft :=
  match choice with
  | .output =>
    match fill? draft.output path with
    | some output => .ok { draft with output := output }
    | none => .error .usage
  | .settings =>
    match fill? draft.settings path with
    | some settings => .ok { draft with settings := settings }
    | none => .error .usage
  | _ => .error .usage

/-- Takes an operand. -/
def setOperand (draft : Draft) (path : Argument) : Except Refusal Draft :=
  match fill? draft.operand path with
  | some operand => .ok { draft with operand := operand }
  | none => .error .usage

/-- Reads the letters after a hyphen. The first that calls for a path takes the others as its path,
without an equals sign before it. -/
def readLetters (draft : Draft) (choices : List Choice) :
    List Char → Except Refusal (Draft × Expected)
  | [] => .ok (draft, .anything)
  | letter :: rest =>
    match Choice.ofLetter? choices letter with
    | none => .error .usage
    | some choice =>
      if choice.takesPath then
        match rest with
        | [] => .ok (draft, .pathOf choice)
        | '=' :: path => (draft.set choice path).map (·, .anything)
        | path => (draft.set choice path).map (·, .anything)
      else
        match draft.raise choice with
        | .ok draft => draft.readLetters choices rest
        | .error refusal => .error refusal

/-- Reads what follows two hyphens: a word, and perhaps an equals sign and a path. -/
def readWord (draft : Draft) (choices : List Choice) (text : List Char) :
    Except Refusal (Draft × Expected) :=
  match Choice.ofWord? choices (text.takeWhile (· != '=')), text.dropWhile (· != '=') with
  | none, _ => .error .usage
  | some choice, [] =>
    if choice.takesPath then .ok (draft, .pathOf choice)
    else (draft.raise choice).map (·, .anything)
  | some choice, _ :: path =>
    if choice.takesPath then (draft.set choice path).map (·, .anything) else .error .usage

end Draft

/-- Whether an argument is written as an option is. -/
def isOption (argument : Argument) : Bool :=
  argument.head? == some '-' && argument != ['-']

/-- Reads an argument that is written as an option is. -/
def readOption (draft : Draft) (choices : List Choice) (argument : Argument) :
    Except Refusal (Draft × Expected) :=
  match argument with
  | '-' :: '-' :: text => draft.readWord choices text
  | _ :: letters => draft.readLetters choices letters
  | [] => .error .usage

/-- Reads one argument after a subcommand. -/
def step (choices : List Choice) (state : Draft × Expected) (argument : Argument) :
    Except Refusal (Draft × Expected) :=
  match state with
  | (draft, .operand) => (draft.setOperand argument).map (·, .operand)
  | (draft, .pathOf choice) =>
    if isOption argument then .error .usage else (draft.set choice argument).map (·, .anything)
  | (draft, .anything) =>
    if argument = ['-', '-'] then .ok (draft, .operand)
    else if isOption argument then readOption draft choices argument
    else (draft.setOperand argument).map (·, .anything)

/-- Reads the arguments after a subcommand. -/
def readAfter (choices : List Choice) (arguments : List Argument) : Except Refusal Draft :=
  match arguments.foldlM (step choices) (Draft.empty, .anything) with
  | .error refusal => .error refusal
  | .ok (_, .pathOf _) => .error .usage
  | .ok (draft, _) => .ok draft

/-- The snapshot that is drawn if none is named. -/
def defaultSnapshot : Path :=
  .ofString "dependencyGraph.json"

/-- The command that a subcommand and a draft make. -/
def ofDraft (action : Action) (draft : Draft) : Command :=
  match action with
  | .build => .build draft.operand draft.output draft.settings
  | .render => .render (draft.operand.getD defaultSnapshot) draft.output draft.image
  | .stats => .stats draft.operand draft.settings

/-- The word that asks for help in the place of a subcommand. -/
def helpWord : Argument :=
  "help".toList

/-- Answers arguments that ask for help: on the program, or on one subcommand. -/
def helpOn (arguments : List Argument) : Refusal :=
  match arguments with
  | [] => .help
  | [topic] => if topic = helpWord || (Action.ofArgument? topic).isSome then .help else .usage
  | _ => .usage

/-- Reads arguments, where the options before the subcommand have made a draft. -/
def readFrom (draft : Draft) : List Argument → Except Refusal Invocation
  | [] => .error .usage
  | argument :: arguments =>
    match Action.ofArgument? argument with
    | some action =>
      (readAfter action.choices arguments).map fun later =>
        ⟨draft.verbose || later.verbose, ofDraft action later⟩
    | none =>
      if argument = helpWord then .error (helpOn arguments)
      else if !isOption argument then .error .usage
      else
        match readOption draft Choice.beforeAction argument with
        | .ok (draft, _) => readFrom draft arguments
        | .error refusal => .error refusal

end Command

/-- The invocation that arguments stand for. -/
def Invocation.ofArguments (arguments : List Command.Argument) : Except Refusal Invocation :=
  Command.readFrom Command.Draft.empty arguments

end ImportAtlas
