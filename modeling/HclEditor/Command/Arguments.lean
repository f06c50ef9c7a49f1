/-!
# Arguments

The words of a command line: the name of a command, the values it works on, and options.
An option is written with two dashes and its name, or with one dash and its letter;
letters may be joined. Behind a word of just two dashes every word is a value.
-/

namespace HclEditor

/-- The commands. -/
inductive CommandName where
  | get
  | set
  | fmt
deriving DecidableEq, Repr

/-- What a command line asks for. -/
inductive Command where
  | get (query : String) (file : Option String) (strict : Bool)
  | set (query value : String) (file type : Option String) (inPlace strict : Bool)
  | fmt (file : Option String) (inPlace : Bool)
deriving DecidableEq, Repr

/-- The options. -/
inductive Switch where
  | verbose
  | help
  | version
  | strict
  | inPlace
  | type
deriving DecidableEq, Repr

/-- Why a command line cannot be understood. -/
inductive UsageError where
  | noCommand
  | unknownCommand (word : String)
  | unknownOption (word : String)
  | unexpectedValue (word : String)
  | missingValue
  | repeated
  | tooManyValues (word : String)
  | emptyPath
  | tooFewValues
deriving DecidableEq, Repr

/-- Why the words of a command line are not read to their end. -/
inductive Stop where
  | error (error : UsageError)
  | help
  | version
deriving DecidableEq, Repr

namespace UsageError

/-- The error in words. -/
def message : UsageError → String
  | .noCommand => "a command is required: get, set or fmt"
  | .unknownCommand word => "unknown command '" ++ word ++ "'"
  | .unknownOption word => "unexpected argument '" ++ word ++ "'"
  | .unexpectedValue word => "unexpected value in '" ++ word ++ "'"
  | .missingValue => "a value is required for '--type'"
  | .repeated => "an option cannot be used multiple times"
  | .tooManyValues word => "unexpected argument '" ++ word ++ "'"
  | .emptyPath => "a value is required for HCL_FILE"
  | .tooFewValues => "required arguments were not provided"

end UsageError

namespace CommandName

/-- The command with a name. -/
def ofWord? : String → Option CommandName
  | "get" => some .get
  | "set" => some .set
  | "fmt" => some .fmt
  | _ => none

/-- The command has the option. Only the command line as a whole has a version. -/
def has (name : CommandName) : Switch → Bool
  | .verbose => true
  | .help => true
  | .version => false
  | .strict => name != .fmt
  | .inPlace => name != .get
  | .type => name == .set

/-- How many values have to precede the path of a file, which may be left out. -/
def required : CommandName → Nat
  | .get => 1
  | .set => 2
  | .fmt => 0

end CommandName

namespace Switch

/-- The option with a name. -/
def ofName? : String → Option Switch
  | "verbose" => some .verbose
  | "help" => some .help
  | "version" => some .version
  | "strict" => some .strict
  | "in-place" => some .inPlace
  | "type" => some .type
  | _ => none

/-- The option with a letter. -/
def ofLetter? : Char → Option Switch
  | 'v' => some .verbose
  | 'h' => some .help
  | 'V' => some .version
  | 'i' => some .inPlace
  | 't' => some .type
  | _ => none

end Switch

/-- What the words of a command have given so far. -/
structure Given where
  values : List String := []
  type : Option String := none
  inPlace : Bool := false
  strict : Bool := false
deriving DecidableEq, Repr

namespace Given

/-- Takes an option without a value. -/
def take (given : Given) : Switch → Except Stop Given
  | .verbose => .ok given
  | .help => .error .help
  | .version => .error .version
  | .strict =>
      if given.strict then .error (.error .repeated) else .ok { given with strict := true }
  | .inPlace =>
      if given.inPlace then .error (.error .repeated) else .ok { given with inPlace := true }
  | .type => .error (.error .missingValue)

/-- Takes the value of the option that has one. -/
def takeType (given : Given) (value : String) : Except Stop Given :=
  if given.type.isSome then .error (.error .repeated)
  else .ok { given with type := some value }

/-- Takes a value. The path of a file may not be empty. -/
def takeValue (name : CommandName) (given : Given) (value : String) : Except Stop Given :=
  let count := given.values.length
  if name.required < count then .error (.error (.tooManyValues value))
  else if count = name.required ∧ value.isEmpty then .error (.error .emptyPath)
  else .ok { given with values := given.values ++ [value] }

/-- Takes the letters of joined options. Behind the letter of the option that has a value
stands the value, perhaps with an equals sign in front of it; if nothing stands there the
next word is the value, and the result says so. -/
def takeLetters (accepts : Switch → Bool) (word : String) (given : Given) :
    List Char → Except Stop (Given × Bool)
  | [] => .ok (given, false)
  | letter :: letters =>
      match (Switch.ofLetter? letter).filter accepts with
      | none => .error (.error (.unknownOption word))
      | some .type =>
          match letters with
          | [] => .ok (given, true)
          | '=' :: value => (given.takeType (String.ofList value)).map (·, false)
          | value => (given.takeType (String.ofList value)).map (·, false)
      | some option =>
          match given.take option with
          | .ok given => takeLetters accepts word given letters
          | .error stop => .error stop

/-- Takes an option by its name, with the value that an equals sign attaches to it. The
result says whether the next word is the option's value. -/
def takeName (accepts : Switch → Bool) (word : String) (given : Given) (text : List Char) :
    Except Stop (Given × Bool) :=
  let name := text.takeWhile (· != '=')
  let attached := (text.drop name.length).tail?
  match (Switch.ofName? (String.ofList name)).filter accepts, attached with
  | none, _ => .error (.error (.unknownOption word))
  | some .type, none => .ok (given, true)
  | some .type, some value => (given.takeType (String.ofList value)).map (·, false)
  | some option, none => (given.take option).map (·, false)
  | some _, some _ => .error (.error (.unexpectedValue word))

/-- Takes a word with options in it; nothing if the word is a value. A single dash is
one. -/
def takeOption? (accepts : Switch → Bool) (given : Given) (word : String) :
    Option (Except Stop (Given × Bool)) :=
  match word.toList with
  | '-' :: '-' :: name => some (given.takeName accepts word name)
  | '-' :: letter :: letters => some (given.takeLetters accepts word (letter :: letters))
  | _ => none

/-- The word can be the value of the option in front of it. -/
def isValue (word : String) : Bool :=
  word.toList.head? != some '-' || word == "-"

/-- Takes the words of a command; `literally` if all of them are values. -/
def takeWords (name : CommandName) (literally : Bool) (given : Given) :
    List String → Except Stop Given
  | [] => .ok given
  | word :: words =>
      if literally then
        match given.takeValue name word with
        | .ok given => takeWords name true given words
        | .error stop => .error stop
      else if word = "--" then takeWords name true given words
      else
        match given.takeOption? name.has word with
        | none =>
            match given.takeValue name word with
            | .ok given => takeWords name false given words
            | .error stop => .error stop
        | some (.error stop) => .error stop
        | some (.ok (given, false)) => takeWords name false given words
        | some (.ok (given, true)) =>
            match words with
            | [] => .error (.error .missingValue)
            | value :: words =>
                if isValue value then
                  match given.takeType value with
                  | .ok given => takeWords name false given words
                  | .error stop => .error stop
                else .error (.error .missingValue)

/-- The command that the words make up. -/
def command (name : CommandName) (given : Given) : Except Stop Command :=
  match name, given.values with
  | .get, query :: rest => .ok (.get query rest.head? given.strict)
  | .set, query :: value :: rest =>
      .ok (.set query value rest.head? given.type given.inPlace given.strict)
  | .fmt, rest => .ok (.fmt rest.head? given.inPlace)
  | _, _ => .error (.error .tooFewValues)

end Given

namespace Command

/-- What the words behind a request for help ask for: nothing more, or one command. -/
def helpFor : List String → Stop
  | [] => .help
  | [word] =>
      if (CommandName.ofWord? word).isSome || word == "help" then .help
      else .error (.unknownCommand word)
  | _ :: word :: _ => .error (.unknownCommand word)

/-- The options in front of a command. -/
def isGeneral : Switch → Bool
  | .verbose => true
  | .help => true
  | .version => true
  | _ => false

/-- The command that a command line asks for. -/
def ofWords : List String → Except Stop Command
  | [] => .error (.error .noCommand)
  | word :: words =>
      match CommandName.ofWord? word with
      | some name =>
          match Given.takeWords name false {} words with
          | .ok given => given.command name
          | .error stop => .error stop
      | none =>
          if word = "help" then .error (helpFor words)
          else
            match Given.takeOption? isGeneral {} word with
            | none => .error (.error (.unknownCommand word))
            | some (.error stop) => .error stop
            | some (.ok _) => ofWords words

end Command

end HclEditor
