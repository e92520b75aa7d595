import TouchPanel.FileTree.Path

/-!
# Commands

A command line as words, options and flags, and the commands that it can stand for.
-/

namespace TouchPanel

/-! ## Words -/

/-- A part of a command line. -/
inductive Argument where
  | option (name value : String)
  | flag (name : String)
  | word (s : String)

namespace Argument

/-- The options that have a value. -/
def valued : List String :=
  ["config", "schemas", "device", "recipe", "output", "target", "expected-hash"]

/-- An argument that begins with two dashes, and whether it still needs a value. -/
def ofLong (t : Text) : Argument × Bool :=
  match Text.splitAt? '=' t with
  | some (name, value) => (.option (String.ofList name) (String.ofList value), false)
  | none =>
    let name := String.ofList t
    if valued.contains name then (.option name "", true) else (.flag name, false)

/-- An argument that begins with one dash. -/
def ofShort (t : Text) : Argument × Bool :=
  match t with
  | 'o' :: r =>
    let value := match r with
      | '=' :: r => r
      | r => r
    (.option "output" (String.ofList value), r.isEmpty)
  | ['V'] => (.flag "version", false)
  | t => (.flag (String.ofList ('-' :: t)), false)

/-- The arguments of a command line, unless the last one lacks its value. After two
dashes alone all others are words. -/
def ofLine? : List String → Option (List Argument)
  | [] => some []
  | s :: r =>
    let add (a : Argument × Bool) : Option (List Argument) :=
      match a, r with
      | (.option name _, true), value :: r => (ofLine? r).map (.option name value :: ·)
      | (_, true), _ => none
      | (a, false), r => (ofLine? r).map (a :: ·)
    match s.toList with
    | ['-', '-'] => some (r.map .word)
    | '-' :: '-' :: t => add (ofLong t)
    | '-' :: c :: t => add (ofShort (c :: t))
    | _ => (ofLine? r).map (.word s :: ·)

end Argument

/-! ## Commands -/

/-- The files from which a document is compiled. -/
structure Inputs where
  device : Path
  recipe : Path

inductive Command where
  | compile (inputs : Inputs) (output : Option Path) (denyWarnings : Bool)
  | merge (inputs : Inputs) (target : Path) (updateOnly : Bool) (expected : Option String)
      (dryRun : Bool)
  | selfCheck (inputs : Inputs)
  | lint (recipes : List Path)

/-- A command with the files of options and key tables to use. -/
structure Invocation where
  config : Option Path
  schemas : Option Path
  command : Command

/-- What a command line asks for. -/
inductive Request where
  | version
  | run (i : Invocation)

namespace Request

/-- The last value of an option. -/
def value? (args : List Argument) (name : String) : Option String :=
  args.reverse.findSome? fun
    | .option n v => if n = name then some v else none
    | _ => none

def path? (args : List Argument) (name : String) : Option Path := (value? args name).map .mk

def hasFlag (args : List Argument) (name : String) : Bool :=
  args.any fun
    | .flag n => n = name
    | _ => false

def words (args : List Argument) : List String :=
  args.filterMap fun
    | .word s => some s
    | _ => none

/-- Whether there are no other options and flags than those named. -/
def onlyNames (args : List Argument) (options flags : List String) : Bool :=
  args.all fun
    | .option n _ => (["config", "schemas"] ++ options).contains n
    | .flag n => flags.contains n
    | .word _ => true

def inputs? (args : List Argument) : Option Inputs :=
  return ⟨← path? args "device", ← path? args "recipe"⟩

/-- The command with the given name. -/
def command? (name : String) (args : List Argument) : Option Command :=
  match name with
  | "compile" =>
    if onlyNames args ["device", "recipe", "output"] ["deny-warnings"] && (words args).isEmpty then
      return .compile (← inputs? args) (path? args "output") (hasFlag args "deny-warnings")
    else none
  | "export" =>
    if onlyNames args ["device", "recipe", "target", "expected-hash"] ["update-only", "dry-run"] &&
        (words args).isEmpty then
      return .merge (← inputs? args) (← path? args "target") (hasFlag args "update-only")
        (value? args "expected-hash") (hasFlag args "dry-run")
    else none
  | "self-check" =>
    if onlyNames args ["device", "recipe"] [] && (words args).isEmpty then
      return .selfCheck (← inputs? args)
    else none
  | "lint-recipe" =>
    if onlyNames args [] [] && !(words args).isEmpty then
      return .lint ((words args).map .mk)
    else none
  | _ => none

/-- Reads a command line. Options for all commands may stand before the command. -/
def ofLine? (line : List String) : Option Request := do
  let args ← Argument.ofLine? line
  let isWord (a : Argument) : Bool := a matches .word _
  let front := args.takeWhile (!isWord ·)
  if hasFlag front "version" then return .version
  match args.dropWhile (!isWord ·) with
  | .word name :: rest =>
    if onlyNames front [] [] then
      return .run ⟨path? args "config", path? args "schemas", ← command? name rest⟩
    else none
  | _ => none

end Request

end TouchPanel
