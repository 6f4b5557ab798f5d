import ShaderFront.Grammar.State
import ShaderFront.Text.Quoted

/-!
# Arguments of the command

Flags come first, with one dash or two, and the rest are input files. A flag that is a
switch takes a value only after an equals sign; the output file may also be the next
argument. Two dashes alone end the flags, and so does anything that is no flag.
-/

namespace ShaderFront

/-- What is asked of the command. -/
structure Settings where
  /-- The file to write to; empty for the standard output. -/
  output : Bytes := []
  /-- Print the tokens? -/
  tokens : Bool := false
  /-- Print the outline? -/
  tree : Bool := false
  /-- The extensions of the grammar. -/
  options : Options := {}
  /-- Report progress? -/
  verbose : Bool := false
  /-- Print the version and do nothing else? -/
  version : Bool := false
  /-- The input files. -/
  inputs : List Bytes := []
  deriving DecidableEq, Repr

/-- A flag. -/
inductive Flag where
  | allMembers
  | tree
  | manyArguments
  | output
  | assignRight
  | tokens
  | verbose
  | version
  deriving DecidableEq, Repr

namespace Flag

/-- Every flag, in the order of their names. -/
def all : List Flag :=
  [allMembers, tree, manyArguments, output, assignRight, tokens, verbose, version]

/-- The name of a flag, without its dash. -/
def name : Flag → String
  | allMembers => "all-members"
  | tree => "ast"
  | manyArguments => "multi-args"
  | output => "o"
  | assignRight => "right-assign"
  | tokens => "tokens"
  | verbose => "v"
  | version => "version"

/-- What a flag is for. -/
def help : Flag → String
  | allMembers => "keep every struct member"
  | tree => "print the AST (default when -tokens is not given)"
  | manyArguments => "accept calls with several arguments"
  | output => "output file (default: stdout)"
  | assignRight => "parse assignment right-associatively"
  | tokens => "print the token stream"
  | verbose => "log progress to stderr"
  | version => "print version"

/-- The flag of a name. -/
def ofName? (t : Bytes) : Option Flag :=
  all.find? fun flag => utf8 flag.name = t

/-- The name of a flag and the sort of its value, as the usage text shows them. -/
def heading (flag : Flag) : String :=
  "  -" ++ flag.name ++ (if flag = output then " string" else "")

/-- The lines of a flag in the usage text. Only a heading of a single letter has the
explanation on its own line. -/
def usage (flag : Flag) : String :=
  flag.heading ++ (if flag.heading.length ≤ 4 then "\t" else "\n    \t") ++ flag.help ++ "\n"

end Flag

/-- The usage text. -/
def usage : Bytes :=
  utf8 "Usage: kongc [options] <input.kong>...\n\nOptions:\n" ++
  Flag.all.flatMap (fun flag => utf8 flag.usage) ++
  utf8 "\nExamples:\n" ++
  utf8 "  kongc shader.kong               Print the AST\n" ++
  utf8 "  kongc -tokens shader.kong       Print the token stream\n" ++
  utf8 "  kongc -o shader.ast shader.kong Write the AST to a file\n"

/-- Why the arguments are refused. -/
inductive ArgumentFault where
  /-- The usage text is asked for. -/
  | help
  /-- An argument starts like a flag but has no name. -/
  | badForm (argument : Bytes)
  /-- There is no such flag. -/
  | undefined (name : Bytes)
  /-- A flag that needs a value is the last argument. -/
  | missingValue (name : Bytes)
  /-- The value of a switch is no truth value. -/
  | badSwitch (name value : Bytes)
  deriving DecidableEq, Repr

/-- What is said about a fault, a line of it; nothing if only the usage is asked for. -/
def ArgumentFault.text : ArgumentFault → Bytes
  | help => []
  | badForm argument => utf8 "bad flag syntax: " ++ argument ++ utf8 "\n"
  | undefined name => utf8 "flag provided but not defined: -" ++ name ++ utf8 "\n"
  | missingValue name => utf8 "flag needs an argument: -" ++ name ++ utf8 "\n"
  | badSwitch name value =>
    utf8 "invalid boolean value " ++ quoted value ++ utf8 " for -" ++ name ++
      utf8 ": parse error\n"

/-- The truth value that a text stands for. -/
def truthValue? (t : Bytes) : Option Bool :=
  if ["1", "t", "T", "true", "TRUE", "True"].any (utf8 · = t) then some true
  else if ["0", "f", "F", "false", "FALSE", "False"].any (utf8 · = t) then some false
  else none

/-- Turn a switch on or off. The output file is no switch. -/
def Settings.turn (s : Settings) (flag : Flag) (on : Bool) : Settings :=
  match flag with
  | .allMembers => { s with options := { s.options with allMembers := on } }
  | .manyArguments => { s with options := { s.options with manyArguments := on } }
  | .assignRight => { s with options := { s.options with assignRight := on } }
  | .tree => { s with tree := on }
  | .tokens => { s with tokens := on }
  | .verbose => { s with verbose := on }
  | .version => { s with version := on }
  | .output => s

/-- What an argument looks like. -/
inductive ArgumentForm where
  /-- It is no flag. -/
  | input
  /-- It ends the flags. -/
  | stop
  /-- It starts like a flag but has no name. -/
  | malformed
  /-- A flag, perhaps with a value. -/
  | flag (name : Bytes) (value : Option Bytes)
  deriving DecidableEq, Repr

/-- The byte that flags start with. -/
def dash : UInt8 := 0x2d

/-- The byte between a flag and its value. -/
def equalsSign : UInt8 := 0x3d

/-- Split a flag, whose dashes are gone, at its equals sign. The sign cannot come first. -/
def flagForm : Bytes → ArgumentForm
  | [] => .malformed
  | b :: rest =>
    if b = dash || b = equalsSign then .malformed
    else
      let name := b :: rest.takeWhile (· ≠ equalsSign)
      match rest.dropWhile (· ≠ equalsSign) with
      | [] => .flag name none
      | _ :: value => .flag name (some value)

/-- The form of an argument. -/
def argumentForm (argument : Bytes) : ArgumentForm :=
  match argument with
  | a :: b :: rest =>
    if a ≠ dash then .input
    else if b ≠ dash then flagForm (b :: rest)
    else if rest.isEmpty then .stop
    else flagForm rest
  | _ => .input

/-- Read the arguments on top of the settings so far. Later flags win over earlier ones. -/
def Settings.read (s : Settings) : List Bytes → Except ArgumentFault Settings
  | [] => .ok s
  | argument :: rest =>
    match argumentForm argument with
    | .input => .ok { s with inputs := argument :: rest }
    | .stop => .ok { s with inputs := rest }
    | .malformed => .error (.badForm argument)
    | .flag name value =>
      match Flag.ofName? name with
      | none =>
        if name = utf8 "help" || name = utf8 "h" then .error .help else .error (.undefined name)
      | some .output =>
        match value with
        | some v => Settings.read { s with output := v } rest
        | none =>
          match rest with
          | v :: others => Settings.read { s with output := v } others
          | [] => .error (.missingValue name)
      | some flag =>
        match value.map truthValue? with
        | none => Settings.read (s.turn flag true) rest
        | some (some on) => Settings.read (s.turn flag on) rest
        | some none => .error (.badSwitch name (value.getD []))

/-- Is the outline printed? It is when it is asked for, and when the tokens are not. -/
def Settings.showsTree (s : Settings) : Bool :=
  s.tree || !s.tokens

end ShaderFront
