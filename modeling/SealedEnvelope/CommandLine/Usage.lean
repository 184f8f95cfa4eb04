import SealedEnvelope.CommandLine.Invocation

set_option autoImplicit false

/-! # Reading arguments

`Invocation.ofArguments` reads the arguments from left to right, one level of commands at a time.
Each level has options of its own; the configuration file and the request for help may be given at
any of them. An argument names a command of the next level, unless it follows an option that waits
for its value or stands behind `--`.

The value of an option is read only when the next option, the next positional argument or the end of
the level is reached. So an unknown argument is reported before a bad value in front of it, and what
is wrong at a deeper level before what is wrong above. -/

namespace SealedEnvelope.CommandLine

/-! ## Levels -/

/-- The program, or one of its commands. -/
inductive Level where
  | root | keygen | encrypt | decrypt | id | idGenerate | idCheck | config | configShow
  | configOverhead | version
deriving DecidableEq, Repr

/-- What the value of an option may be. -/
inductive ValueKind where
  | text
  /-- A text that is not empty. -/
  | path
  /-- A number of 64 bits. -/
  | count
  | mode
deriving DecidableEq, Repr

/-- What an option asks for. -/
inductive OptionKind where
  | help
  | version
  /-- An option without value. -/
  | flag
  /-- An option with a value, given at most once. -/
  | single (kind : ValueKind)
  /-- An option with a value, given any number of times. -/
  | repeated (kind : ValueKind)
deriving DecidableEq, Repr

/-- A named place for a value. -/
structure Parameter where
  name : String
  kind : OptionKind
deriving DecidableEq, Repr

namespace Level

/-- The commands of the next level. -/
def commands : Level → List (String × Level)
  | root =>
    [("keygen", keygen), ("encrypt", encrypt), ("decrypt", decrypt), ("id", id),
     ("config", config), ("version", version)]
  | id => [("generate", idGenerate), ("check", idCheck)]
  | config => [("show", configShow), ("overhead", configOverhead)]
  | _ => []

/-- The name of the command that shows help, where there are commands. -/
def helpName : String := "help"

/-- The command of a name. -/
def command? (level : Level) (name : String) : Option Level :=
  (level.commands.find? fun c => c.1 = name).map Prod.snd

/-- Whether a command has this name, the one that shows help included. -/
def hasCommand (level : Level) (name : String) : Bool :=
  (level.command? name).isSome || (name = helpName && ¬ level.commands.isEmpty)

/-- The options that only this level has. -/
def ownOptions : Level → List Parameter
  | root => [⟨"version", .version⟩]
  | keygen => [⟨"json", .flag⟩, ⟨"uncompressed", .flag⟩]
  | encrypt =>
    [⟨"recipient", .repeated .text⟩, ⟨"recipient-id", .repeated .text⟩, ⟨"mode", .single .mode⟩,
     ⟨"stream", .flag⟩, ⟨"chunk-size", .single .count⟩, ⟨"input", .single .path⟩,
     ⟨"output", .single .path⟩]
  | decrypt =>
    [⟨"private-key", .single .text⟩, ⟨"recipient-id", .single .text⟩, ⟨"stream", .flag⟩,
     ⟨"input", .single .path⟩, ⟨"output", .single .path⟩]
  | idGenerate => [⟨"count", .single .count⟩]
  | configOverhead => [⟨"recipients", .single .count⟩]
  | _ => []

/-- The options of a level. -/
def options (level : Level) : List Parameter :=
  ⟨"config", .single .path⟩ :: ⟨"help", .help⟩ :: level.ownOptions

/-- What a letter behind a single dash asks for. -/
def shortOption? (level : Level) (letter : Char) : Option OptionKind :=
  if letter = 'h' then some .help
  else if letter = 'V' ∧ level = root then some .version
  else none

/-- The argument without a name that a level takes. -/
def positional? : Level → Option Parameter
  | idCheck => some ⟨"id", .single .text⟩
  | _ => none

end Level

/-! ## Values -/

/-- A value that has been read. -/
inductive Value where
  | flag
  | text (text : String)
  | count (n : Nat)
  | mode (mode : Mode)
deriving DecidableEq, Repr

/-- The number that ASCII digits spell, if there is at least one digit. -/
def readDigits : List Char → Option Nat
  | [] => none
  | digits =>
    if digits.all Char.isDigit then
      some (digits.foldl (fun n c => 10 * n + (c.toNat - '0'.toNat)) 0)
    else none

/-- A number of 64 bits in decimal digits, with or without a plus sign. -/
def readCount (text : String) : Option Nat :=
  let digits := match text.toList with
    | '+' :: rest => rest
    | chars => chars
  (readDigits digits).filter (· < UInt64.size)

/-- Reads a value of a kind. -/
def ValueKind.read : ValueKind → String → Except UsageError Value
  | text, s => .ok (.text s)
  | path, s => if s.isEmpty then .error .valueMissing else .ok (.text s)
  | count, s =>
    match readCount s with
    | some n => .ok (.count n)
    | none => .error .valueInvalid
  | mode, s =>
    match Mode.ofName s with
    | .ok m => .ok (.mode m)
    | .error _ => .error .valueInvalid

/-- The values of one level, in the order in which they were read. -/
abbrev Given := List (String × Value)

namespace Given

/-- The values under a name. -/
def all (name : String) (given : Given) : List Value :=
  (given.filter fun e => e.1 = name).map Prod.snd

/-- Whether there is a value under a name. -/
def has (name : String) (given : Given) : Bool := given.any fun e => e.1 = name

/-- The texts under a name. -/
def texts (name : String) (given : Given) : List String :=
  (all name given).filterMap fun
    | .text s => some s
    | _ => none

/-- The text under a name. -/
def text? (name : String) (given : Given) : Option String := (texts name given).head?

/-- The number under a name. -/
def count? (name : String) (given : Given) : Option Nat :=
  (all name given).findSome? fun
    | .count n => some n
    | _ => none

/-- The mode under a name. -/
def mode? (name : String) (given : Given) : Option Mode :=
  (all name given).findSome? fun
    | .mode m => some m
    | _ => none

/-- Reads the text of an option behind the values already read. -/
def accept (given : Given) (parameter : Parameter) (text : Option String) :
    Except UsageError Given :=
  match parameter.kind, text with
  | .single kind, some s =>
    if has parameter.name given then .error .argumentRepeated
    else (kind.read s).map fun value => given ++ [(parameter.name, value)]
  | .repeated kind, some s => (kind.read s).map fun value => given ++ [(parameter.name, value)]
  | _, _ => .error .valueMissing

/-- Puts a flag behind the values already read. -/
def raise (given : Given) (name : String) : Except UsageError Given :=
  if has name given then .error .argumentRepeated else .ok (given ++ [(name, .flag)])

end Given

/-! ## One argument -/

/-- The forms of an argument in front of `--`. -/
inductive Argument where
  | escape
  | long (name : String) (value : Option String)
  | short (letter : Char)
  | plain
deriving DecidableEq, Repr

/-- The form of an argument. -/
def Argument.ofText (text : String) : Argument :=
  match text.toList with
  | ['-', '-'] => .escape
  | '-' :: '-' :: chars =>
    let name := String.ofList (chars.takeWhile (· ≠ '='))
    match chars.dropWhile (· ≠ '=') with
    | _ :: value => .long name (some (String.ofList value))
    | [] => .long name none
  | '-' :: letter :: _ => .short letter
  | _ => .plain

/-- What is known of a level in the middle of its arguments. -/
structure Progress where
  given : Given
  /-- The last option or positional argument, if its value is still to be read, with its text if
      that has come. -/
  pending : Option (Parameter × Option String)
  /-- Behind `--`. -/
  trailing : Bool
  /-- The positional argument has come. -/
  filled : Bool
deriving DecidableEq, Repr

namespace Progress

/-- Before the first argument. -/
def start : Progress := ⟨[], none, false, false⟩

/-- Whether the next argument is the value of an option. -/
def expecting (p : Progress) : Bool :=
  match p.pending with
  | some (_, none) => true
  | _ => false

/-- The value still to be read, read. -/
def settle (p : Progress) : Except UsageError Progress :=
  match p.pending with
  | some (parameter, text) => do
    return { p with given := ← p.given.accept parameter text, pending := none }
  | none => .ok p

/-- An argument that is not an option of any sort. -/
def takePlain (level : Level) (text : String) (p : Progress) : Except UsageError Progress :=
  match level.positional?, p.filled with
  | some parameter, false => do
    return { (← p.settle) with pending := some (parameter, some text), filled := true }
  | _, _ =>
    if level.commands.isEmpty ∨ (p.trailing ∧ level.hasCommand text) then
      .error .argumentUnknown
    else .error .commandUnknown

/-- An option, with the value attached to it if there is one. -/
def takeOption (parameter : Parameter) (attached : Option String) (p : Progress) :
    Except UsageError Progress :=
  match parameter.kind, attached with
  | .single _, none | .repeated _, none => do
    return { (← p.settle) with pending := some (parameter, none) }
  | .single _, some text | .repeated _, some text => do
    let p ← p.settle
    return { p with given := ← p.given.accept parameter (some text) }
  | .help, none => do
    let _ ← p.settle
    throw .helpRequested
  | .version, none => do
    let _ ← p.settle
    throw .versionRequested
  | .flag, none => do
    let p ← p.settle
    return { p with given := ← p.given.raise parameter.name }
  | _, some _ => .error .valueUnwanted

/-- One argument that names no command. -/
def take (level : Level) (text : String) (p : Progress) : Except UsageError Progress :=
  if p.trailing then p.takePlain level text
  else
    match Argument.ofText text with
    | .escape => .ok { p with trailing := true }
    | .long name attached =>
      match level.options.find? (·.name = name) with
      | some parameter => p.takeOption parameter attached
      | none => .error .argumentUnknown
    | .short letter =>
      match level.shortOption? letter with
      | some kind => p.takeOption ⟨"", kind⟩ none
      | none => .error .argumentUnknown
    | .plain =>
      match p.pending with
      | some (parameter, none) => .ok { p with pending := some (parameter, some text) }
      | _ => p.takePlain level text

end Progress

/-! ## All arguments -/

/-- The command of a level, from the values given. -/
def Level.command (environment : Environment) (given : Given) : Level → Except UsageError Command
  | root | id | config =>
    if given.isEmpty ∧ environment.config.isNone then .error .nothingRequested
    else .error .commandMissing
  | keygen => .ok (.keygen (given.has "json") (given.has "uncompressed"))
  | encrypt =>
    match given.texts "recipient", given.text? "input", given.text? "output" with
    | first :: others, some input, some output =>
      .ok (.encrypt
        { recipients := first :: others
          recipientIds := given.texts "recipient-id"
          mode := (given.mode? "mode").getD .simple
          stream := given.has "stream"
          chunkSize := given.count? "chunk-size"
          input, output })
    | _, _, _ => .error .argumentMissing
  | decrypt =>
    match given.text? "private-key" <|> environment.privateKey, given.text? "input",
      given.text? "output" with
    | some privateKey, some input, some output =>
      .ok (.decrypt
        { privateKey
          recipientId := given.text? "recipient-id"
          stream := given.has "stream"
          input, output })
    | _, _, _ => .error .argumentMissing
  | idGenerate => .ok (.generateIds ((given.count? "count").getD 1))
  | idCheck =>
    match given.text? "id" with
    | some text => .ok (.checkId text)
    | none => .error .argumentMissing
  | configShow => .ok .showConfig
  | configOverhead => .ok (.showOverhead ((given.count? "recipients").getD 1))
  | version => .ok .version

/-- What a request for help with a command comes to. -/
def Level.help : Level → (names : List String) → UsageError
  | _, [] => .helpRequested
  | level, name :: rest =>
    match level.command? name with
    | some next => next.help rest
    | none =>
      if level.hasCommand name ∧ rest.isEmpty then .helpRequested else .commandUnknown

/-- Reads the arguments from a level on. -/
def Level.read (environment : Environment) :
    (level : Level) → Progress → List String → Except UsageError Invocation
  | level, p, [] => do
    let p ← p.settle
    return { config := p.given.text? "config", command := ← level.command environment p.given }
  | level, p, text :: rest =>
    if p.trailing ∨ p.expecting then do
      level.read environment (← p.take level text) rest
    else
      match level.command? text with
      | some next => do
        let invocation ← next.read environment .start rest
        let p ← p.settle
        return { invocation with config := invocation.config <|> p.given.text? "config" }
      | none =>
        if level.hasCommand text then .error (level.help rest)
        else do
          level.read environment (← p.take level text) rest

/-- The invocation that the arguments of the program spell. -/
def Invocation.ofArguments (environment : Environment) (arguments : List String) :
    Except UsageError Invocation := do
  let invocation ← Level.root.read environment .start arguments
  return { invocation with config := invocation.config <|> environment.config }

end SealedEnvelope.CommandLine
