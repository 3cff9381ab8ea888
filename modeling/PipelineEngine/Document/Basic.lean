import PipelineEngine.Document.Endpoint
import PipelineEngine.Document.Table
import PipelineEngine.Yaml.Read

/-!
# Documents

The assembled configuration: metadata, environment, databases, builders, and the
pipelines, endpoints and jobs.  A lookup by name takes the first declaration of the
name; checks across declarations are made when a document is linked.
-/

namespace PipelineEngine

/-- A binding that expressions see under `env`. -/
structure EnvVar where
  name : String
  value : String
deriving Repr, Inhabited, DecidableEq

namespace EnvVar

def ofNode? (node : Node) : Option EnvVar := do
  let r ← Record.read ["name", "value"] node
  return ⟨← r.required "name" Node.asString, ← r.required "value" Node.asString⟩

def toValue (v : EnvVar) : Value :=
  .ofPairs [("name", .string v.name), ("value", .string v.value)]

end EnvVar

/-- A named image that builds step providers. -/
structure StepBuilder where
  name : String
  image : String
deriving Repr, Inhabited, DecidableEq

namespace StepBuilder

def ofNode? (node : Node) : Option StepBuilder := do
  let r ← Record.read ["name", "image"] node
  return ⟨← r.required "name" Node.asString, ← r.required "image" Node.asString⟩

def toValue (b : StepBuilder) : Value :=
  .ofPairs [("name", .string b.name), ("image", .string b.image)]

end StepBuilder

/-- An interface of the platform that a document may allow. -/
inductive CoreApi where
  | register
  | loginByEmail
  | loginByUsername
  | oauth
  | passwordResetTrigger
  | passwordReset
  | magicLink
  | twoFactorAuthEmail
  | twoFactorAuthSms
  | twoFactorStep2
  | twoFactorTotp
  | verifyAccount
deriving Repr, Inhabited, DecidableEq

def CoreApi.name : CoreApi → String
  | .register => "register"
  | .loginByEmail => "login_by_email"
  | .loginByUsername => "login_by_username"
  | .oauth => "oauth"
  | .passwordResetTrigger => "password_reset_trigger"
  | .passwordReset => "password_reset"
  | .magicLink => "magic_link"
  | .twoFactorAuthEmail => "two_factor_auth_email"
  | .twoFactorAuthSms => "two_factor_auth_sms"
  | .twoFactorStep2 => "two_factor_step2"
  | .twoFactorTotp => "two_factor_totp"
  | .verifyAccount => "verify_account"

def CoreApi.names : List (String × CoreApi) :=
  [.register, .loginByEmail, .loginByUsername, .oauth, .passwordResetTrigger, .passwordReset,
    .magicLink, .twoFactorAuthEmail, .twoFactorAuthSms, .twoFactorStep2, .twoFactorTotp,
    .verifyAccount].map fun a => (a.name, a)

/-- Options that hold for all pipelines. -/
structure GlobalOptions where
  crudTables : List String
  coreApis : List CoreApi
  hooks : Hooks
deriving Repr, Inhabited, DecidableEq

namespace GlobalOptions

def empty : GlobalOptions := ⟨[], [], .none⟩

def ofNode? (node : Node) : Option GlobalOptions := do
  let r ← Record.read ["crud_tables", "core_apis", "hooks"] node
  return {
    crudTables := ← r.defaulted "crud_tables" [] (Node.asList Node.asString)
    coreApis := ← r.defaulted "core_apis" [] (Node.asList (Node.asChoice CoreApi.names))
    hooks := ← r.defaulted "hooks" .none Hooks.ofNode? }

def toValue (o : GlobalOptions) : Value :=
  .ofPairs [
    ("crud_tables", .array (o.crudTables.map .string)),
    ("core_apis", .array (o.coreApis.map fun a => .string a.name)),
    ("hooks", o.hooks.toValue)]

end GlobalOptions

/-- Endpoints, pipelines and jobs. -/
structure Apis where
  globalOptions : GlobalOptions
  rest : Option Rest
  graphql : Option GraphQl
  pipelines : List Pipeline
  jobs : List Job
deriving Repr, Inhabited, DecidableEq

namespace Apis

def empty : Apis := ⟨.empty, none, none, [], []⟩

def ofNode? (node : Node) : Option Apis := do
  let r ← Record.read ["global_options", "rest", "graphql", "pipelines", "jobs"] node
  return {
    globalOptions := ← r.defaulted "global_options" .empty GlobalOptions.ofNode?
    rest := ← r.optional "rest" Rest.ofNode?
    graphql := ← r.optional "graphql" GraphQl.ofNode?
    pipelines := ← r.defaulted "pipelines" [] (Node.asList Pipeline.ofNode?)
    jobs := ← r.defaulted "jobs" [] (Node.asList Job.ofNode?) }

def toValue (a : Apis) : Value :=
  .ofPairs [
    ("global_options", a.globalOptions.toValue),
    ("rest", .ofOption (a.rest.map Rest.toValue)),
    ("graphql", .ofOption (a.graphql.map GraphQl.toValue)),
    ("pipelines", .array (a.pipelines.map Pipeline.toValue)),
    ("jobs", .array (a.jobs.map Job.toValue))]

end Apis

/-- The root of a configuration. -/
structure Document where
  info : Fields String
  env : List EnvVar
  databases : List Database
  apis : Apis
  stepBuilders : List StepBuilder
deriving Repr, Inhabited, DecidableEq

namespace Document

/-- The environment as a map; the last binding of a name stays. -/
def envMap (d : Document) : Fields String := Fields.ofList (d.env.map fun v => (v.name, v.value))

/-- All tables, in declaration order. -/
def tables (d : Document) : List Table :=
  d.databases.flatMap fun db => db.schemas.flatMap (·.tables)

/-- The first table of a name. -/
def table? (d : Document) (name : String) : Option Table := d.tables.find? (·.name = name)

def pipelines (d : Document) : List Pipeline := d.apis.pipelines

/-- The first pipeline of a name. -/
def pipeline? (d : Document) (name : String) : Option Pipeline :=
  d.pipelines.find? (·.name = name)

/-- The first builder of a name. -/
def stepBuilder? (d : Document) (name : String) : Option StepBuilder :=
  d.stepBuilders.find? (·.name = name)

def endpoints (d : Document) : List Endpoint :=
  match d.apis.rest with
  | some rest => rest.endpoints
  | none => []

def jobs (d : Document) : List Job := d.apis.jobs

def hooks (d : Document) : Hooks := d.apis.globalOptions.hooks

def ofNode? (node : Node) : Option Document := do
  let r ← Record.read ["meta", "env", "databases", "apis", "step_builders"] node
  return {
    info := ← r.defaulted "meta" [] Node.asTexts
    env := ← r.defaulted "env" [] (Node.asList EnvVar.ofNode?)
    databases := ← r.defaulted "databases" [] (Node.asList Database.ofNode?)
    apis := ← r.defaulted "apis" .empty Apis.ofNode?
    stepBuilders := ← r.defaulted "step_builders" [] (Node.asList StepBuilder.ofNode?) }

def toValue (d : Document) : Value :=
  .ofPairs [
    ("meta", .object (d.info.map fun (k, v) => (k, .string v))),
    ("env", .array (d.env.map EnvVar.toValue)),
    ("databases", .array (d.databases.map Database.toValue)),
    ("apis", d.apis.toValue),
    ("step_builders", .array (d.stepBuilders.map StepBuilder.toValue))]

/-! ## Reading documents

A document is written in YAML, of which JSON is a part.  A text without any node
is the empty document.
-/

/-- The document of a text. -/
def ofText? (text : String) : Option Document :=
  (Yaml.read? text.toList).bind ofNode?

/-- The document of a JSON value. -/
def ofValue? (v : Value) : Option Document := ofNode? (Node.ofValue v)

end Document

end PipelineEngine
