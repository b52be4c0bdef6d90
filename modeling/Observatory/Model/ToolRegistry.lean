import Observatory.Model.Value

/-!
# The tool registry

`ToolRegistry` and the schemas of `build_default_registry` of `packages/agent_core/executor.py`: a
call checks its keyword arguments against the schema of the tool and hands them on.
-/

namespace Observatory.ToolRegistry

/-- A property of a schema, by its `type`. -/
structure Property where
  type : Option String
deriving DecidableEq

/-- `parameters` of a schema; its `type` is not looked at. -/
structure Parameters where
  properties : Option (List (String × Property)) := none
  required : Option (List String) := none

structure Schema where
  name : String
  description : String
  parameters : Option Parameters := none

namespace Schema

/-- `params.get("properties") or {}` -/
def props (schema : Schema) : List (String × Property) :=
  (schema.parameters.bind (·.properties)).getD []

/-- `params.get("required") or []` -/
def required (schema : Schema) : List String :=
  (schema.parameters.bind (·.required)).getD []

end Schema

/-- The registered tools with their schemas, the last registered first. -/
abbrev Registry := List (String × Schema)

def register (reg : Registry) (name : String) (schema : Schema) : Registry := (name, schema) :: reg

/-- The parameters of `call`, which no keyword argument can be named after. -/
def ownParameters : List String := ["self", "name"]

/-- `isinstance(v, str)` -/
def isStr : Json → Bool
  | .text _ => true
  | _ => false

/-- `isinstance(v, int)`; `bool` is a subclass. -/
def isInt : Json → Bool
  | .int _ | .bool _ => true
  | _ => false

/-- `isinstance(v, dict)` -/
def isDict : Json → Bool
  | .obj _ => true
  | _ => false

def valueError (name msg : String) : LibError := ⟨"ValueError", "araç " ++ name ++ ": " ++ msg⟩

/-- One argument against the properties. -/
def checkArgument (name : String) (props : List (String × Property)) (k : String) (v : Json) :
    Except LibError Unit :=
  let exp := (props.lookup k).bind (·.type)
  if props.lookup k = none ∧ props ≠ [] then
    .error (valueError name ("bilinmeyen argüman: " ++ k))
  else if exp = some "string" ∧ !isStr v then .error (valueError name (k ++ " string olmalı"))
  else if exp = some "integer" ∧ !isInt v then .error (valueError name (k ++ " integer olmalı"))
  else if exp = some "object" ∧ !isDict v then .error (valueError name (k ++ " object olmalı"))
  else .ok ()

/-- A required argument. -/
def checkRequired (name : String) (kw : Dict) (r : String) : Except LibError Unit :=
  if (kw.get r).isNone then .error (valueError name ("gerekli argüman eksik: " ++ r)) else .ok ()

/-- What the function of a tool is called with. -/
structure Invocation where
  tool : String
  kw : Dict

/-- `call` up to the call of the tool's function. -/
def call (reg : Registry) (name : String) (kw : Dict) : Except LibError Invocation := do
  if kw.any fun (k, _) => k ∈ ownParameters then
    throw ⟨"TypeError", "got multiple values for argument"⟩
  match reg.lookup name with
  | none => throw ⟨"KeyError", "kayıtsız araç: " ++ name⟩
  | some schema =>
    schema.required.forM (checkRequired name kw)
    kw.forM fun (k, v) => checkArgument name schema.props k v
    return ⟨name, kw⟩

/-! ## The default tools -/

def property (type : String) : Property := ⟨some type⟩

/-- `build_default_registry` -/
def defaultRegistry : Registry :=
  let schemas : List Schema := [
    ⟨"http_json_read", "İzinli HTTP/JSON kaynak okur (SSRF korumalı)",
      some ⟨some [("url", property "string")], some ["url"]⟩⟩,
    ⟨"github_repo_read", "Public GitHub repo etkinliğini okur",
      some ⟨some [("repo", property "string")], some ["repo"]⟩⟩,
    ⟨"internal_health", "LUMI container sağlık bilgisi", some ⟨some [], none⟩⟩,
    ⟨"technocore_read",
      "Technocore room/event reader (optional, requires TECHNOCORE_ENABLED)",
      some ⟨some [("room", property "string"), ("since", property "integer")], none⟩⟩,
    ⟨"technocore_signed_write", "DID-signed Technocore publish (optional, approval required)",
      some ⟨some [("room", property "string"), ("payload", property "object"),
        ("idempotency_key", property "string")], some ["room", "payload"]⟩⟩]
  schemas.foldl (fun reg schema => register reg schema.name schema) []

end Observatory.ToolRegistry
