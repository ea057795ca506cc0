import HeaderRules.Chain
import HeaderRules.Command.Arguments

/-!
# Commands

The four commands and how they are written. The options for logging are understood before and after
the name of a command; they change nothing that a command computes.
-/

namespace HeaderRules

/-- The version of the program. -/
def version : String := "0.1.0"

/-- What the program is asked to do. -/
inductive Command where
  /-- List the genesis blocks of one chain or of all chains. -/
  | genesis (chain : Option Chain)
  /-- Print the parameters of a chain. -/
  | params (chain : Chain)
  /-- Hash a header and compare it with its target. -/
  | pow (chain : Chain) (header : String)
  /-- Verify the run of headers in a file. -/
  | verify (chain : Chain) (path : String) (startHeight : UInt32)
deriving DecidableEq, Repr

namespace Command

/-- The options that every command understands. -/
def loggingOptions : List OptionSpec := [
  ⟨"verbose", some 'v', false⟩,
  ⟨"log-level", none, true⟩,
  ⟨"no-color", none, false⟩]

/-- The option that selects a chain. -/
def chainOption : OptionSpec := ⟨"chain", some 'c', true⟩

/-- A 32-bit height in decimal digits, which may have a sign in front. -/
def height? (text : String) : Option UInt32 :=
  let (negative, digits) : Bool × List Char :=
    match text.toList with
    | '+' :: digits => (false, digits)
    | '-' :: digits => (true, digits)
    | digits => (false, digits)
  if digits.isEmpty || !digits.all Char.isDigit then none
  else
    let n := digits.foldl (fun acc c => 10 * acc + (c.toNat - 0x30)) 0
    if n < UInt32.size && (!negative || n == 0) then some (UInt32.ofNat n) else none

/-- The settings of a command that has no free words. -/
def settings? (options : List OptionSpec) (args : List String) : Option Settings :=
  match Arguments.read? (options ++ loggingOptions) args with
  | some (settings, []) => some settings
  | _ => none

/-- The chain that is set. -/
def chain? (settings : Settings) : Option Chain :=
  (settings.get? "chain").bind fun text => (Chain.ofText text).toOption

/-- The command with the given name and arguments. -/
def ofName? (name : String) (args : List String) : Option Command :=
  match name with
  | "genesis" => do
    let settings ← settings? [chainOption] args
    if (settings.get? "chain").isNone then return genesis none
    return genesis (some (← chain? settings))
  | "params" => do
    let settings ← settings? [chainOption] args
    return params (← chain? settings)
  | "pow" => do
    let settings ← settings? [chainOption, ⟨"header", none, true⟩] args
    return pow (← chain? settings) (← settings.get? "header")
  | "verify" => do
    let options := [chainOption, ⟨"headers", none, true⟩, ⟨"start-height", none, true⟩]
    let settings ← settings? options args
    let chain ← chain? settings
    let path ← settings.get? "headers"
    if path.isEmpty then none
    let startHeight ← height? ((settings.get? "start-height").getD "0")
    return verify chain path startHeight
  | _ => none

/-- The command that a list of arguments stands for, if it is well-formed. -/
def ofArguments? (args : List String) : Option Command :=
  match Arguments.read? loggingOptions args with
  | some (_, name :: args) => ofName? name args
  | _ => none

/-- The path of the file that a command reads. -/
def path? : Command → Option String
  | verify _ path _ => some path
  | _ => none

end Command

end HeaderRules
