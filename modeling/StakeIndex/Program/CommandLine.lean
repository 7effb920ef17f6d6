import StakeIndex.Text.Numeral
import StakeIndex.Word

/-!
The command line: one subcommand with its options. Arguments are read from left to right. An option's
value is checked when the next flag or the end shows that it is complete, and an argument that nothing
expects ends the reading before what is still open is checked.
-/
namespace StakeIndex

inductive Command where
  | serve
  | follow
  | scrape (first last : Nat)
  | sync (block : Option Nat) (version : Option String)
deriving DecidableEq, Repr

/-- Why there is nothing to do: help was asked for, or the arguments do not fit. -/
inductive CommandLineStop where
  | displayHelp
  | displayVersion
  | displayHelpOnMissing
  | invalidSubcommand
  | unknownArgument
  | missingRequired
  | valueValidation
  | invalidValue
  | argumentConflict
  | tooManyValues
deriving DecidableEq, Repr

namespace CommandLineStop

def kind : CommandLineStop → String
  | displayHelp => "DisplayHelp"
  | displayVersion => "DisplayVersion"
  | displayHelpOnMissing => "DisplayHelpOnMissingArgumentOrSubcommand"
  | invalidSubcommand => "InvalidSubcommand"
  | unknownArgument => "UnknownArgument"
  | missingRequired => "MissingRequiredArgument"
  | valueValidation => "ValueValidation"
  | invalidValue => "InvalidValue"
  | argumentConflict => "ArgumentConflict"
  | tooManyValues => "TooManyValues"

/-- The exit code of the program: help that was asked for is no error. -/
def exitCode : CommandLineStop → Nat
  | displayHelp => 0
  | displayVersion => 0
  | _ => 2

end CommandLineStop

/-- The first word of a command line. -/
inductive Subcommand where
  | serve
  | follow
  | scrape
  | sync
deriving DecidableEq, Repr

namespace Subcommand

def text : Subcommand → String
  | serve => "serve"
  | follow => "follow"
  | scrape => "scrape"
  | sync => "sync"

def all : List Subcommand := [serve, follow, scrape, sync]

def find? (name : String) : Option Subcommand := all.find? fun s => s.text == name

/-- The options of a subcommand; those whose value is a number of 64 bits are marked so. -/
def options : Subcommand → List (String × Bool)
  | scrape => [("from", true), ("to", true)]
  | sync => [("block", true), ("version", false)]
  | _ => []

end Subcommand

inductive ArgumentShape where
  | separator
  | long (name : String) (value : Option String)
  | short (first : Char)
  | plain

/-- The shape of an argument: a single dash is plain. -/
def ArgumentShape.of (arg : String) : ArgumentShape :=
  match arg.toList with
  | ['-', '-'] => separator
  | '-' :: '-' :: rest =>
    let name := rest.takeWhile (· ≠ '=')
    long (String.ofList name)
      (if name.length = rest.length then none else some (String.ofList (rest.drop (name.length + 1))))
  | '-' :: c :: _ => short c
  | _ => plain

/-- The options read so far. The last one is open until it is checked; it may still lack its value. -/
structure OptionValues where
  settled : List (String × String) := []
  pending : Option (String × Bool × Option String) := none

namespace OptionValues

/-- Checks the open option. -/
def settle (o : OptionValues) : Except CommandLineStop OptionValues :=
  match o.pending with
  | none => .ok o
  | some (_, _, none) => .error .invalidValue
  | some (name, numeric, some value) =>
    if (o.settled.lookup name).isSome then .error .argumentConflict
    else if numeric && (Numeral.read? registerSize value).isNone then .error .valueValidation
    else .ok ⟨(name, value) :: o.settled, none⟩

def read (s : Subcommand) : OptionValues → List String → Except CommandLineStop OptionValues
  | o, [] => o.settle
  | o, arg :: rest =>
    match ArgumentShape.of arg with
    | .separator => if rest.isEmpty then o.settle else .error .unknownArgument
    | .long "help" none => do
      let _ ← o.settle
      throw .displayHelp
    | .long "help" (some _) => .error .tooManyValues
    | .long name value =>
      match s.options.lookup name with
      | none => .error .unknownArgument
      | some numeric => do
        let o : OptionValues := { ← o.settle with pending := some (name, numeric, value) }
        if value.isSome then read s (← o.settle) rest else read s o rest
    | .short 'h' => do
      let _ ← o.settle
      throw .displayHelp
    | .short _ => .error .unknownArgument
    | .plain =>
      match o.pending with
      | some (name, numeric, none) => read s { o with pending := some (name, numeric, some arg) } rest
      | _ => .error .unknownArgument

def text? (o : OptionValues) (name : String) : Option String := o.settled.lookup name

def number? (o : OptionValues) (name : String) : Option Nat :=
  (o.text? name).bind (Numeral.read? registerSize)

end OptionValues

namespace Command

def ofOptions (s : Subcommand) (o : OptionValues) : Except CommandLineStop Command :=
  match s with
  | .serve => .ok .serve
  | .follow => .ok .follow
  | .scrape =>
    match o.number? "from", o.number? "to" with
    | some first, some last => .ok (.scrape first last)
    | _, _ => .error .missingRequired
  | .sync => .ok (.sync (o.number? "block") (o.text? "version"))

/-- What asking for help on some words gives: they must name at most one subcommand. -/
def help : List String → CommandLineStop
  | [] => .displayHelp
  | [name] =>
    if name = "help" ∨ (Subcommand.find? name).isSome then .displayHelp else .invalidSubcommand
  | _ => .invalidSubcommand

def read (args : List String) : Except CommandLineStop Command :=
  match args with
  | [] => .error .displayHelpOnMissing
  | arg :: rest =>
    match Subcommand.find? arg with
    | some s => do ofOptions s (← OptionValues.read s {} rest)
    | none =>
      if arg = "help" then .error (help rest)
      else match ArgumentShape.of arg with
        | .separator =>
          match rest with
          | [] => .error .displayHelpOnMissing
          | name :: _ =>
            if name = "help" ∨ (Subcommand.find? name).isSome then .error .unknownArgument
            else .error .invalidSubcommand
        | .long "help" none => .error .displayHelp
        | .long "version" none => .error .displayVersion
        | .long "help" (some _) => .error .tooManyValues
        | .long "version" (some _) => .error .tooManyValues
        | .long _ _ => .error .unknownArgument
        | .short 'h' => .error .displayHelp
        | .short 'V' => .error .displayVersion
        | .short _ => .error .unknownArgument
        | .plain => .error .invalidSubcommand

def usage : String := "SKALE staking contracts indexer

Usage: skale-indexer <COMMAND>

Commands:
  serve   Serve the control surface only
  follow  Follow the chain head and serve the control surface
  scrape  Scrape one block range and exit: --from <FROM> --to <TO>
  sync    Run one epoch synchronisation and exit: [--block <BLOCK>] [--version <VERSION>]
  help    Print this message or the help of the given subcommand"

end Command
end StakeIndex
