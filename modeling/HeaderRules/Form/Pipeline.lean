import HeaderRules.Chain
import HeaderRules.Form.Record
import HeaderRules.Pipeline

/-!
# JSON forms of chains and hash pipelines

Chains and the stages of the X11 cascade are written as their names. A pipeline is an object that
names its kind; scrypt has its parameters beside it, and for the other kinds they may be null or
missing. A pipeline is also read from an array of its kind, as a string, and its parameters.
-/

namespace HeaderRules

namespace Chain

/-- The form of a chain. -/
def toJson (c : Chain) : Json := .str c.name

/-- The chain of a form. Only its name counts, none of its other spellings. -/
def ofJson? (j : Json) : Option Chain := j.alternative?.bind ofName?

end Chain

namespace Hash.X11.Stage

/-- The form of a stage. -/
def toJson (s : Stage) : Json := .str s.name

/-- The stage of a form. -/
def ofJson? (j : Json) : Option Stage := j.alternative?.bind ofName?

end Hash.X11.Stage

namespace ScryptParams

/-- The form of scrypt parameters. -/
def toJson (params : ScryptParams) : Json :=
  .obj [("log_n", .int params.logN.toNat), ("r", .ofUInt32 params.r), ("p", .ofUInt32 params.p),
    ("output_len", .ofUInt64 params.outputLen)]

/-- The scrypt parameters of a form. -/
def ofJson? (j : Json) : Option ScryptParams := do
  let [logN, r, p, outputLen] ← j.fields? ["log_n", "r", "p", "output_len"] | none
  return ⟨← logN.uint8?, ← r.uint32?, ← p.uint32?, ← outputLen.uint64?⟩

end ScryptParams

namespace HashPipeline

/-- The form of a pipeline. -/
def toJson (pipeline : HashPipeline) : Json :=
  match pipeline with
  | scrypt params => .obj [("kind", .str pipeline.name), ("params", params.toJson)]
  | other => .obj [("kind", .str other.name)]

/-- The pipeline of a kind, given the form of its parameters if there is one. -/
def ofKind? (kind : String) (params : Option Json) : Option HashPipeline :=
  match kind, params with
  | "sha256d", none => some sha256d
  | "sha256d", some .null => some sha256d
  | "x11", none => some x11
  | "x11", some .null => some x11
  | "scrypt", some j => (ScryptParams.ofJson? j).map scrypt
  | _, _ => none

/-- The pipeline of a form. -/
def ofJson? (j : Json) : Option HashPipeline :=
  match j with
  | .arr [.str kind, params] => ofKind? kind (some params)
  | _ => (j.member? "kind").bind fun kind =>
    kind.alternative?.bind fun kind => ofKind? kind (j.member? "params")

end HashPipeline

end HeaderRules
