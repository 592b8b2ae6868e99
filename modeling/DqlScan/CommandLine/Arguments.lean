import DqlScan.Text.Basic

/-!
# Arguments

Options and paths may stand in any order. An option takes effect where it stands, so the last
value of an option counts and the first mistake decides. Of the two options that ask for a text, the
first counts. After `--` there are only paths.
-/

namespace DqlScan.CommandLine

structure Options where
  paths : List Text := []
  format : Text := "text".toList
  ide : Bool := false
  verbose : Bool := false
  version : Bool := false
  help : Bool := false
  deriving DecidableEq

/-- A mistake in the arguments; options are named as they were written. -/
inductive UsageFault where
  | unknownOption (name : Text)
  | valueNotTaken (name : Text)
  | valueMissing (name : Text)
  deriving DecidableEq

def UsageFault.message : UsageFault → Text
  | .unknownOption name => "No such option: ".toList ++ name
  | .valueNotTaken name => "Option '".toList ++ name ++ "' does not take a value.".toList
  | .valueMissing name => "Option '".toList ++ name ++ "' requires an argument.".toList

inductive Setting where
  | format
  | ide
  | verbose
  | version
  | help
  deriving DecidableEq

def Setting.ofLong? (name : Text) : Option Setting :=
  [("--format".toList, format), ("--ide".toList, ide), ("--verbose".toList, verbose),
    ("--version".toList, version), ("--help".toList, help)].lookup name

def Setting.ofLetter? (letter : Char) : Option Setting :=
  [('f', format), ('v', verbose)].lookup letter

namespace Options

def set (o : Options) : Setting → Options
  | .ide => { o with ide := true }
  | .verbose => { o with verbose := true }
  | .version => { o with version := !o.help }
  | .help => { o with help := !o.version }
  | .format => o

/-- The options after an argument, and the option that still waits for its value, by its name. -/
abbrev Progress := Options × Option Text

def readLong (o : Options) (arg : Text) : Except UsageFault Progress :=
  let name := arg.takeWhile (· ≠ '=')
  match Setting.ofLong? name, arg.drop name.length with
  | none, _ => .error (.unknownOption name)
  | some .format, [] => .ok (o, some name)
  | some .format, _ :: value => .ok ({ o with format := value }, none)
  | some flag, [] => .ok (o.set flag, none)
  | some _, _ :: _ => .error (.valueNotTaken name)

/-- Reads the letters after a single hyphen. A value is what follows the letter of its option. -/
def readLetters (o : Options) : Text → Except UsageFault Progress
  | [] => .ok (o, none)
  | letter :: rest =>
    match Setting.ofLetter? letter with
    | none => .error (.unknownOption ['-', letter])
    | some .format =>
      .ok (if rest = [] then (o, some ['-', letter]) else ({ o with format := rest }, none))
    | some flag => readLetters (o.set flag) rest

/-- Reads an argument that is no value of an option. -/
def readArgument (o : Options) (arg : Text) : Except UsageFault Progress :=
  match arg with
  | '-' :: '-' :: _ => readLong o arg
  | '-' :: letter :: rest => readLetters o (letter :: rest)
  | _ => .ok ({ o with paths := o.paths ++ [arg] }, none)

def readFrom (o : Options) (waiting : Option Text) : List Text → Except UsageFault Options
  | [] =>
    match waiting with
    | none => .ok o
    | some name => .error (.valueMissing name)
  | arg :: args =>
    match waiting with
    | some _ => readFrom { o with format := arg } none args
    | none =>
      if arg = ['-', '-'] then .ok { o with paths := o.paths ++ args }
      else
        match readArgument o arg with
        | .error fault => .error fault
        | .ok (o, waiting) => readFrom o waiting args

def read (args : List Text) : Except UsageFault Options := readFrom {} none args

end Options

end DqlScan.CommandLine
