import Smalltalk.Image.Loader
import Smalltalk.Machine.Step

namespace Smalltalk

/-! The program takes an image and a few sizes, runs the image and reports what
happened in a log. -/

namespace CommandLine

/-! ## Arguments -/

/-- The sizes and limits that can be given. -/
inductive Setting where
  | methodCacheSize
  | tableSize
  | tableMaxSize
  | bytecodes
deriving DecidableEq

namespace Setting

/-- How a setting is written on the command line. -/
def name : Setting → String
  | methodCacheSize => "--method-cache-size"
  | tableSize => "--table-size"
  | tableMaxSize => "--max-table-size"
  | bytecodes => "--bytecodes"

def all : List Setting := [methodCacheSize, tableSize, tableMaxSize, bytecodes]

theorem mem_all (setting : Setting) : setting ∈ all := by
  cases setting <;> simp [all]

/-- The setting of a name. -/
def ofName? (name : String) : Option Setting := all.find? (·.name = name)

end Setting

/-- What the program is to do. -/
structure Options where
  image : Option String := none
  settings : List (Setting × Nat) := []
deriving DecidableEq, Inhabited

namespace Options

/-- The number given for a setting. -/
def number? (options : Options) (setting : Setting) : Option Nat := options.settings.lookup setting

/-- Take a number for a setting that has none yet. -/
def give? (options : Options) (setting : Setting) (number : Nat) : Option Options :=
  match options.number? setting with
  | some _ => none
  | none => some { options with settings := (setting, number) :: options.settings }

/-- Take the image, if there is none yet. -/
def giveImage? (options : Options) (image : String) : Option Options :=
  match options.image with
  | some _ => none
  | none => some { options with image }

/-- The default configuration with the sizes that were given. -/
def config (options : Options) : Config :=
  let defaults : Config := {}
  { defaults with
    methodCacheSize := (options.number? .methodCacheSize).getD defaults.methodCacheSize
    tableSize := (options.number? .tableSize).getD defaults.tableSize
    tableMaxSize := (options.number? .tableMaxSize).getD defaults.tableMaxSize }

end Options

/-- What the arguments ask for. -/
inductive Request where
  | run (image : String) (options : Options)
  /-- To be told about the program. -/
  | information
  /-- The arguments are not understood. -/
  | misuse
deriving DecidableEq

/-- The number that digits stand for, after an optional plus sign. It has to fit
into sixty-four bits. -/
def parseNumber? (text : String) : Option Nat :=
  let digits :=
    match text.toList with
    | '+' :: rest => rest
    | characters => characters
  if digits.isEmpty ∨ !digits.all Char.isDigit then
    none
  else
    let number := digits.foldl (fun n digit => 10 * n + (digit.toNat - '0'.toNat)) 0
    if number < 18446744073709551616 then some number else none

/-- Whether an argument starts like an option, and so is no value. -/
def looksLikeOption (argument : String) : Bool :=
  match argument.toList with
  | '-' :: _ :: _ => true
  | _ => false

/-- Whether an argument asks for information: by name, or with a short option
that comes before any other. -/
def asksForInformation (argument : String) : Bool :=
  match argument.toList with
  | '-' :: 'h' :: _ => true
  | '-' :: 'V' :: _ => true
  | _ => argument = "--help" ∨ argument = "--version"

/-- Split a long option from the value attached to it. -/
def splitValue (argument : String) : String × Option String :=
  let name := argument.toList.takeWhile (· ≠ '=')
  match argument.toList.drop name.length with
  | [] => (argument, none)
  | _ :: value => (String.ofList name, some (String.ofList value))

/-- Everything has been read: there has to be an image. -/
def finish (options : Options) : Request :=
  match options.image with
  | some image => .run image options
  | none => .misuse

/-- Read arguments none of which is an option. -/
def parseImages (options : Options) : List String → Request
  | [] => finish options
  | argument :: rest =>
    match options.giveImage? argument with
    | some options => parseImages options rest
    | none => .misuse

/-- Take the text of a number for a setting. -/
def Options.giveText? (options : Options) (setting : Setting) (text : String) : Option Options :=
  (parseNumber? text).bind (options.give? setting)

/-- Read arguments from left to right. What decides the matter first is what
counts. -/
def parseFrom (options : Options) : List String → Request
  | [] => finish options
  | argument :: rest =>
    if argument = "--" then parseImages options rest
    else if asksForInformation argument then .information
    else if looksLikeOption argument then
      match Setting.ofName? (splitValue argument).1, (splitValue argument).2, rest with
      | none, _, _ => .misuse
      | some setting, some value, rest =>
        match options.giveText? setting value with
        | some options => parseFrom options rest
        | none => .misuse
      | some _, none, [] => .misuse
      | some setting, none, value :: rest =>
        if looksLikeOption value then .misuse
        else
          match options.giveText? setting value with
          | some options => parseFrom options rest
          | none => .misuse
    else
      match options.giveImage? argument with
      | some options => parseFrom options rest
      | none => .misuse

def parse (arguments : List String) : Request := parseFrom {} arguments

/-! ## The log -/

inductive Level where
  | info
  | error
deriving DecidableEq

namespace Level

def name : Level → String
  | info => "INFO"
  | error => "ERROR"

end Level

structure LogLine where
  level : Level
  text : String
deriving DecidableEq

/-- What the program leaves behind. -/
structure Report where
  exitCode : Nat
  log : List LogLine
deriving DecidableEq

/-- The exit code after a failure. -/
def failureCode : Nat := 1

/-- The exit code after arguments that are not understood. -/
def misuseCode : Nat := 2

/-- The exit code of a program that breaks off where nothing is laid down for what to do. -/
def crashCode : Nat := 101

/-! ## Running an image -/

/-- Load an image and start a machine on it. Answers the log, and the machine if
all went well. -/
def start (name : String) (options : Options) (source : ByteSource) :
    List LogLine × Option Machine :=
  match Image.load source options.config with
  | .error error => ([⟨.error, "loading " ++ name ++ ": " ++ error.message⟩], none)
  | .ok image =>
    let count := image.heap.size
    let loaded : LogLine := ⟨.info, s!"loaded {count} objects from " ++ name⟩
    let (width, height) := image.header.windowExtent
    match Machine.start image.heap image.specialObjects options.config { width, height } with
    | .error stop => ([loaded, ⟨.error, "starting interpreter: " ++ stop.message⟩], none)
    | .ok machine => ([loaded], some machine)

/-- The last line of the log of a machine that has come to its end. -/
def summary (machine : Machine) : LogLine :=
  let counts := machine.registers.methodCache.counts
  let (executed, hits, misses) := (machine.bytecodes, counts.hits, counts.misses)
  ⟨.info, s!"{executed} bytecodes, method cache {hits} hits / {misses} misses"⟩

/-- The report of a run that has come to its end, or been stopped. A program that breaks
off logs nothing more. -/
def report (log : List LogLine) (outcome : Except Stop Machine) : Report :=
  match outcome with
  | .ok machine => { exitCode := 0, log := log ++ [summary machine] }
  | .error .undefinedOperand => { exitCode := crashCode, log }
  | .error stop =>
    { exitCode := failureCode, log := log ++ [⟨.error, "fatal: " ++ stop.message⟩] }

/-- The number of bytecodes that may be executed. -/
def limit (options : Options) : Nat := (options.number? .bytecodes).getD Run.unlimited

/-- Do what the arguments ask for; `source` opens the image. -/
def execute (arguments : List String) (source : String → ByteSource) : Report :=
  match parse arguments with
  | .information => { exitCode := 0, log := [] }
  | .misuse => { exitCode := misuseCode, log := [] }
  | .run name options =>
    match start name options (source name) with
    | (log, none) => { exitCode := failureCode, log }
    | (log, some machine) =>
      match Run.runFor (limit options) machine with
      | .ok _ machine => report log (.ok machine)
      | .error stop _ => report log (.error stop)

end CommandLine

end Smalltalk
