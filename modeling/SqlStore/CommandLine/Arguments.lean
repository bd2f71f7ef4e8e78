/-!
# Arguments of the command line

Arguments are read from left to right. Short options may share a hyphen, `--` ends the options, and
whatever is no option is a query. A request for the version ends the reading at once; an option that
is unknown, given twice or without its value is a misuse.
-/
namespace SqlStore.CommandLine
set_option autoImplicit false

structure Options where
  queries : List String
  showTokens : Bool
  showStatements : Bool
  /-- Asks for the log, which is no part of the transcript of a session. -/
  verbose : Bool
  dumps : List String
deriving DecidableEq

inductive Invocation where
  | session (options : Options)
  | version
  | misuse (message : String)
deriving DecidableEq

namespace Options

def initial : Options :=
  ⟨[], false, false, false, []⟩

def addQuery (options : Options) (query : String) : Options :=
  { options with queries := options.queries ++ [query] }

def addDump (options : Options) (table : String) : Options :=
  { options with dumps := options.dumps ++ [table] }

inductive Flag where
  | tokens | ast | debug | version
deriving DecidableEq

def Flag.ofLetter? : Char → Option Flag
  | 't' => some .tokens
  | 'a' => some .ast
  | 'd' => some .debug
  | 'V' => some .version
  | _ => none

def Flag.ofName? (name : String) : Option Flag :=
  if name = "--tokens" then some .tokens
  else if name = "--ast" then some .ast
  else if name = "--debug" then some .debug
  else if name = "--version" then some .version
  else none

/-- Whatever ends the reading early is returned as an error, the version also. -/
def raise (options : Options) : Flag → Except Invocation Options
  | .tokens =>
    if options.showTokens then .error (.misuse "--tokens is given twice")
    else .ok { options with showTokens := true }
  | .ast =>
    if options.showStatements then .error (.misuse "--ast is given twice")
    else .ok { options with showStatements := true }
  | .debug =>
    if options.verbose then .error (.misuse "--debug is given twice")
    else .ok { options with verbose := true }
  | .version => .error .version

def raiseLetters (options : Options) : List Char → Except Invocation Options
  | [] => .ok options
  | letter :: letters =>
    match Flag.ofLetter? letter with
    | some flag => do raiseLetters (← options.raise flag) letters
    | none => .error (.misuse ("unknown option -" ++ String.singleton letter))

def raiseName (options : Options) (name : String) : Except Invocation Options :=
  match Flag.ofName? name with
  | some flag => options.raise flag
  | none => .error (.misuse ("unknown option " ++ name))

end Options

/-- A hyphen alone is no option. -/
def isOption (argument : List Char) : Bool :=
  argument.head? == some '-' && argument != ['-']

def dumpLabel : List Char :=
  "--dump=".toList

def readOptions (options : Options) : List String → Except Invocation Options
  | [] => .ok options
  | "--" :: rest => .ok (rest.foldl Options.addQuery options)
  | "--dump" :: rest =>
    match rest with
    | table :: rest =>
      if isOption table.toList then .error (.misuse "--dump needs the name of a table")
      else readOptions (options.addDump table) rest
    | [] => .error (.misuse "--dump needs the name of a table")
  | argument :: rest =>
    let letters := argument.toList
    if dumpLabel.isPrefixOf letters then
      readOptions (options.addDump (String.ofList (letters.drop dumpLabel.length))) rest
    else if ['-', '-'].isPrefixOf letters then do
      readOptions (← options.raiseName argument) rest
    else if isOption letters then do
      readOptions (← options.raiseLetters letters.tail) rest
    else readOptions (options.addQuery argument) rest

def Invocation.ofArguments (arguments : List String) : Invocation :=
  match readOptions .initial arguments with
  | .ok options => .session options
  | .error invocation => invocation

end SqlStore.CommandLine
