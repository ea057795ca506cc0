import HeaderRules.Command.Basic
import HeaderRules.Form.Params
import HeaderRules.HeaderRun
import HeaderRules.Json.Printer
import HeaderRules.Json.Reader
import HeaderRules.Registry

/-!
# Running commands

A command prints a text and succeeds, or fails with an error. It is a function of the content of
the file that it names, which is nothing if the file cannot be read. No command prints anything
before the step that can still fail.
-/

namespace HeaderRules

/-- Why a command fails. -/
inductive CommandError where
  /-- The arguments are not well-formed. -/
  | usage
  /-- A file cannot be read. -/
  | unreadable
  /-- A file is not a list of texts. -/
  | malformed
  /-- The parameters of a chain are refused. -/
  | params (cause : ParamsError)
  /-- A text is not a header. -/
  | header (cause : HeaderHexError)
  /-- A pipeline cannot be run. -/
  | pipeline (cause : HashError)
  /-- The header of the command fails verification. -/
  | verification (cause : VerificationError)
  /-- The run of headers in the file fails. -/
  | run (cause : RunError)
deriving DecidableEq, Repr

namespace CommandError

/-- What is wrong, in words. -/
def message : CommandError → String
  | usage => "invalid arguments"
  | unreadable => "the file cannot be read"
  | malformed => "the file is not a list of texts"
  | params cause => cause.message
  | header cause => cause.message
  | pipeline cause => cause.message
  | verification cause => cause.message
  | run cause => cause.message

end CommandError

namespace Command

/-- A text filled up with blanks to a width. -/
def padded (width : Nat) (text : String) : String :=
  text ++ String.ofList (List.replicate (width - text.length) ' ')

/-- The line about the genesis block of a chain. -/
def genesisLine (c : ChainParams) : String :=
  c.chain.name ++ " " ++ padded 26 c.params.id ++ " " ++ c.genesis.hash.text ++ "\n"

/-- The lines about the work of a header. -/
def workLines (hash : BlockHash) (digest : PowHash) (bits : CompactTarget) (valid : Bool) :
    String :=
  "hash  " ++ hash.text ++ "\npow   " ++ digest.text ++ "\nbits  " ++ bits.text ++ "\nvalid " ++
    toString valid ++ "\n"

/-- The texts of a file that is a list of texts. -/
def texts (file : Option String) : Except CommandError (List String) :=
  match file with
  | none => .error .unreadable
  | some text =>
    match (Json.parse? text).bind Json.strings? with
    | some texts => .ok texts
    | none => .error .malformed

/-- What a command prints, given the content of the file that it names. -/
def output (command : Command) (file : Option String) : Except CommandError String :=
  match command with
  | genesis chain => do
    let registry ← (Registry.ofChains (chain.elim Chain.all ([·]))).mapError .params
    return String.join (registry.toList.map genesisLine)
  | params chain => do
    let c ← (ChainParams.ofChain chain).mapError .params
    return c.toJson.pretty ++ "\n"
  | pow chain text => do
    let c ← (ChainParams.ofChain chain).mapError .params
    let header ← (Header.ofHex text).mapError .header
    let digest ← (c.powHash header).mapError .pipeline
    let valid ← (c.hasValidProofOfWork header).mapError .verification
    let hash ← (c.blockHash header).mapError .pipeline
    return workLines hash digest header.bits valid
  | verify chain _ startHeight => do
    let c ← (ChainParams.ofChain chain).mapError .params
    let _ ← (HeaderRun.verify c startHeight (← texts file)).mapError .run
    return ""

end Command

end HeaderRules
