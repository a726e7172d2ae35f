import BlockLang.Text.Digit
import BlockLang.Text.Quoted

/-!
# Command-line options

The command line takes one input and some flags. A long flag may be shortened as long as only one
begins so, short flags may be joined behind one hyphen, with or without an equals sign after the
first, and after two hyphens alone nothing is a flag any more. An argument that looks like a
negative number, or that begins with a hyphen and holds a blank, is no flag either. No flag takes a
value.

## Main definitions

* `Flag`, `flagSpellings`: the flags and how they are written
* `readArgument arg`: whether an argument is a flag
* `readFlags flag isLong attached`: the flags that one argument stands for
* `parseArguments args`: the options of a command line
* `usageText`, `helpText`: the texts on how to use the program

## Main results

* `parseArguments_help`: help is given whatever follows
-/

namespace BlockLang.CommandLine

/-- A flag of the command line. -/
inductive Flag
  | help
  | emitTokens
  | quiet
  | verbose
  deriving DecidableEq, Repr

/-- How the flags are written. -/
def flagSpellings : List (String × Flag) :=
  [("-h", .help), ("--help", .help), ("--emit-tokens", .emitTokens), ("-q", .quiet),
   ("--quiet", .quiet), ("-v", .verbose), ("--verbose", .verbose)]

/-- The flag of a spelling. -/
def flagOf? (spelling : String) : Option Flag :=
  (flagSpellings.find? fun entry => entry.1 == spelling).map Prod.snd

/-- How a message mentions a flag. -/
def Flag.display (f : Flag) : String :=
  String.intercalate "/" ((flagSpellings.filter fun entry => entry.2 = f).map Prod.fst)

/-- Why a command line is refused. -/
inductive UsageError
  | missingInput
  | unrecognized (args : List String)
  | ambiguous (arg : String) (candidates : List String)
  | ignoredValue (flag : Flag) (value : String)
  deriving DecidableEq, Repr

/-- The message about a command line that is refused. -/
def UsageError.message : UsageError → String
  | missingInput => "the following arguments are required: input"
  | unrecognized args => "unrecognized arguments: " ++ String.intercalate " " args
  | ambiguous arg candidates =>
    "ambiguous option: " ++ arg ++ " could match " ++ String.intercalate ", " candidates
  | ignoredValue flag value =>
    "argument " ++ flag.display ++ ": ignored explicit argument " ++ Text.quoted value

/-- What an argument is: an operand, something that looks like a flag, or a flag with the text that
is attached to it, behind an equals sign or directly. -/
inductive Reading
  | operand
  | unknown
  | flag (flag : Flag) (isLong : Bool) (attached : Option (List Char))
  deriving DecidableEq, Repr

/-- The part before the first equals sign, and the part behind it if there is one. -/
def splitAtEquals (cs : List Char) : List Char × Option (List Char) :=
  let name := cs.takeWhile (· != '=')
  match cs.drop name.length with
  | _ :: value => (name, some value)
  | [] => (name, none)

/-- The argument looks like a negative number, in decimal digits with or without a point. -/
def looksNegative (cs : List Char) : Bool :=
  let cs := if cs.getLast? = some '\n' then cs.dropLast else cs
  match cs with
  | '-' :: number =>
    let whole := number.takeWhile Text.isDecimal
    match number.drop whole.length with
    | [] => whole ≠ []
    | '.' :: rest => rest ≠ [] && rest.all Text.isDecimal
    | _ => false
  | _ => false

/-- The flags that an argument may stand for when it is no spelling of one, each with its spelling
and what is attached to it: the long flags that begin so, or the short flag that it begins with. -/
def candidates (cs : List Char) : List (String × Flag × Option (List Char)) :=
  match cs with
  | '-' :: '-' :: _ =>
    let (name, value) := splitAtEquals cs
    (flagSpellings.filter fun entry => name.isPrefixOf entry.1.toList).map
      fun (spelling, flag) => (spelling, flag, value)
  | _ =>
    (flagSpellings.filter fun entry => entry.1.toList = cs.take 2).map
      fun (spelling, flag) => (spelling, flag, some (cs.drop 2))

/-- The spelling begins with two hyphens. -/
def isLong (spelling : List Char) : Bool := (spelling.drop 1).head? = some '-'

/-- The flag with a spelling before an equals sign, if the argument has one. -/
def flagWithValue? (cs : List Char) : Option Reading :=
  match splitAtEquals cs with
  | (_, none) => none
  | (name, some value) =>
    (flagOf? (String.ofList name)).map fun flag => .flag flag (isLong name) (some value)

/-- Whether an argument is a flag; it is refused if it may stand for several. -/
def readArgument (arg : String) : Except UsageError Reading :=
  let cs := arg.toList
  if cs.head? ≠ some '-' then .ok .operand
  else
    match flagOf? arg with
    | some flag => .ok (.flag flag (isLong cs) none)
    | none =>
      if cs = ['-'] then .ok .operand
      else
        match flagWithValue? cs with
        | some reading => .ok reading
        | none =>
          match candidates cs with
          | [(spelling, flag, attached)] => .ok (.flag flag (isLong spelling.toList) attached)
          | [] => .ok (if looksNegative cs || cs.contains ' ' then .operand else .unknown)
          | several => .error (.ambiguous arg (several.map Prod.fst))

/-- A short flag and those joined to it: each character of the text that follows is one more. A text
whose first character is none is refused as the value of the flag before it. -/
def joinedFlags (flag : Flag) : List Char → Except UsageError (List Flag)
  | [] => .ok [flag]
  | c :: cs =>
    match flagOf? (String.ofList ['-', c]) with
    | none => .error (.ignoredValue flag (String.ofList (c :: cs)))
    | some next => (joinedFlags next cs).map (flag :: ·)

/-- The flags of an argument that begins with a flag. What is attached to a long flag is refused as
its value, and so is an empty text attached to a short one. -/
def readFlags (flag : Flag) (isLong : Bool) : Option (List Char) → Except UsageError (List Flag)
  | none => .ok [flag]
  | some cs =>
    if isLong || cs = [] then .error (.ignoredValue flag (String.ofList cs)) else joinedFlags flag cs

/-- The options of a command line. -/
structure Options where
  input : String
  emitTokens : Bool
  quiet : Bool
  verbose : Bool
  deriving DecidableEq, Repr

/-- What was read of a command line so far. -/
structure Reader where
  input : Option String
  flags : List Flag
  extras : List String
  deriving DecidableEq, Repr

/-- What a command line asks for. -/
inductive Parsed
  | help
  | run (options : Options)
  deriving DecidableEq, Repr

/-- The options that were read; the input has to be among them, and nothing else. -/
def Reader.finish (r : Reader) : Except UsageError Parsed :=
  match r.input with
  | none => .error .missingInput
  | some input =>
    if r.extras = [] then
      .ok (.run ⟨input, r.flags.contains .emitTokens, r.flags.contains .quiet,
        r.flags.contains .verbose⟩)
    else .error (.unrecognized r.extras)

/-- Reads the arguments after two hyphens alone, which are no flags. -/
def readOperands (r : Reader) : List String → Reader
  | [] => r
  | arg :: rest =>
    match r.input with
    | none => readOperands { r with input := some arg } rest
    | some _ => readOperands { r with extras := r.extras ++ [arg] } rest

/-- Reads what follows two hyphens alone. The hyphens belong to the input if that stands next to
them, and are one argument too many otherwise. -/
def readSeparated (r : Reader) (besideInput : Bool) (rest : List String) : Reader :=
  if besideInput || (r.input.isNone && rest ≠ []) then readOperands r rest
  else readOperands { r with extras := r.extras ++ ["--"] } rest

/-- Reads arguments in turn; `besideInput` tells whether the argument before was the input. -/
def readArguments (r : Reader) (besideInput : Bool) :
    List (String × Reading) → List String → Except UsageError Parsed
  | [], [] => r.finish
  | [], _ :: rest => (readSeparated r besideInput rest).finish
  | (arg, .operand) :: more, rest =>
    match r.input with
    | none => readArguments { r with input := some arg } true more rest
    | some _ => readArguments { r with extras := r.extras ++ [arg] } false more rest
  | (arg, .unknown) :: more, rest =>
    readArguments { r with extras := r.extras ++ [arg] } false more rest
  | (_, .flag flag isLong attached) :: more, rest =>
    match readFlags flag isLong attached with
    | .error e => .error e
    | .ok flags =>
      if .help ∈ flags then .ok .help
      else readArguments { r with flags := r.flags ++ flags } false more rest

/-- The readings of some arguments; the first that is ambiguous is refused. -/
def readAll : List String → Except UsageError (List (String × Reading))
  | [] => .ok []
  | arg :: rest =>
    match readArgument arg with
    | .error e => .error e
    | .ok reading => (readAll rest).map ((arg, reading) :: ·)

/-- The options of a command line. -/
def parseArguments (args : List String) : Except UsageError Parsed :=
  let before := args.takeWhile (· != "--")
  match readAll before with
  | .error e => .error e
  | .ok readings => readArguments ⟨none, [], []⟩ false readings (args.drop before.length)

/-- How the program is called. -/
def usageText : String := "usage: rggc [-h] [--emit-tokens] [-q] [-v] input\n"

/-- How the program is called, and what its options mean. -/
def helpText : String :=
  usageText ++
  "\nrgg syntax and semantic analyser\n" ++
  "\npositional arguments:\n" ++
  "  input          Input .rgg file\n" ++
  "\noptions:\n" ++
  "  -h, --help     show this help message and exit\n" ++
  "  --emit-tokens  Print token stream\n" ++
  "  -q, --quiet    Don't print the parse trace\n" ++
  "  -v, --verbose  Log scope and analysis details to stderr\n"

/-- Help is given whatever follows. -/
theorem parseArguments_help (args : List String) (readings : List (String × Reading))
    (h : readAll (args.takeWhile (· != "--")) = .ok readings) :
    parseArguments ("-h" :: args) = .ok .help := by
  have hh : readArgument "-h" = .ok (.flag .help false none) := by rfl
  have ht : ("-h" :: args).takeWhile (· != "--") = "-h" :: args.takeWhile (· != "--") := by
    simp
  simp [parseArguments, ht, readAll, hh, h, Except.map, readArguments, readFlags]

end BlockLang.CommandLine
