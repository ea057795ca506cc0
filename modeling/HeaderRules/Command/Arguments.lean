/-!
# Command-line arguments

The arguments of one command are options, which start with a dash, and free words. A long option is
written `--name`, its value follows as the next argument or after an equals sign. A short option is
one letter; several of them may share one dash, and what follows the letter of an option with a
value is that value, with or without an equals sign in front. A separate value must not look like
an option, and no option may occur twice.
-/

namespace HeaderRules

/-- An option that a command understands. -/
structure OptionSpec where
  name : String
  letter : Option Char
  takesValue : Bool
deriving DecidableEq, Repr

/-- Names of options with their values; an option without a value has the empty one. -/
abbrev Settings := List (String × String)

namespace Settings

/-- The value of an option, if it is set. -/
def get? (settings : Settings) (name : String) : Option String := settings.lookup name

/-- Whether no option is set twice. -/
def isProper : Settings → Bool
  | [] => true
  | (name, _) :: rest => rest.all (fun s => s.1 ≠ name) && isProper rest

end Settings

namespace Arguments

/-- What one argument says: some settings, and the option whose value is still to come. -/
structure Reading where
  settings : Settings
  pending : Option String

/-- What the letters after a single dash say. -/
def ofLetters? (specs : List OptionSpec) : List Char → Option Reading
  | [] => some ⟨[], none⟩
  | c :: rest =>
    match specs.find? fun spec => spec.letter = some c with
    | none => none
    | some spec =>
      if spec.takesValue then
        match rest with
        | [] => some ⟨[], some spec.name⟩
        | '=' :: value => some ⟨[(spec.name, String.ofList value)], none⟩
        | value => some ⟨[(spec.name, String.ofList value)], none⟩
      else (ofLetters? specs rest).map fun r => ⟨(spec.name, "") :: r.settings, r.pending⟩

/-- What the text after a double dash says. -/
def ofLong? (specs : List OptionSpec) (text : List Char) : Option Reading :=
  let name := String.ofList (text.takeWhile (· ≠ '='))
  match specs.find? fun spec => spec.name = name with
  | none => none
  | some spec =>
    match spec.takesValue, text.dropWhile (· ≠ '=') with
    | true, [] => some ⟨[], some name⟩
    | true, _ :: value => some ⟨[(name, String.ofList value)], none⟩
    | false, [] => some ⟨[(name, "")], none⟩
    | false, _ => none

/-- Whether an argument is written like an option; a dash on its own is not. -/
def isOption (arg : String) : Bool := arg.toList.head? = some '-' && arg ≠ "-"

/-- What an argument that is written like an option says. -/
def ofOption? (specs : List OptionSpec) (arg : String) : Option Reading :=
  match arg.toList with
  | '-' :: '-' :: text => ofLong? specs text
  | '-' :: letters => ofLetters? specs letters
  | _ => none

/-- The settings up to the first free word, and that word with everything after it. A double dash
on its own ends the options, after which there must not be anything. -/
def scan? (specs : List OptionSpec) :
    (pending : Option String) → List String → Option (Settings × List String)
  | none, [] => some ([], [])
  | some _, [] => none
  | some name, arg :: rest =>
    if isOption arg then none
    else (scan? specs none rest).map fun (settings, words) => ((name, arg) :: settings, words)
  | none, arg :: rest =>
    if arg = "--" then if rest.isEmpty then some ([], []) else none
    else if isOption arg then
      match ofOption? specs arg with
      | none => none
      | some r =>
        (scan? specs r.pending rest).map fun (settings, words) => (r.settings ++ settings, words)
    else some ([], arg :: rest)

/-- The settings and the free words of a list of arguments. -/
def read? (specs : List OptionSpec) (args : List String) : Option (Settings × List String) :=
  match scan? specs none args with
  | some (settings, words) => if settings.isProper then some (settings, words) else none
  | none => none

end Arguments

end HeaderRules
