import PipelineManifest.Variable

/-!
# `PipelineManifest.Settings`: the settings of a pipeline

The sections of a pipeline that are plain records: where it runs, on which platform, and how
the sources are cloned. The records hold the values of the document as they are.

* `Server`, `Workspace`, `Platform`, `Clone`: the sections.
* `decode` of each: a section from a value, where one that is not given is the empty mapping.
* `toValue` of each: a section as a value, without the fields that are not given.
-/

set_option autoImplicit false

namespace PipelineManifest

/-- The host on which the steps run, and how to log in. -/
structure Server where
  host : Variable := .absent
  user : Variable := .absent
  password : Variable := .absent
  sshKey : Variable := .absent
  deriving DecidableEq, Repr, Inhabited

namespace Server

/-- The server that a section describes. -/
def decode (section? : Option Value) : Outcome Server := do
  let v := Value.orEmpty section?
  return {
    host := ← Variable.decodeField (← v.get "host") "server.host"
    user := ← Variable.decodeField (← v.get "user") "server.user"
    password := ← Variable.decodeField (← v.get "password") "server.password"
    sshKey := ← Variable.decodeField (← v.get "ssh_key") "server.ssh_key" }

/-- The variables with their fields. -/
def fields (s : Server) : List (String × Variable) :=
  [("host", s.host), ("user", s.user), ("password", s.password), ("ssh_key", s.sshKey)]

/-- The variables that are present. -/
def entries (s : Server) : List (Value × Value) :=
  (s.fields.filter (·.2.isPresent)).map fun (name, v) => (.str name, v.toValue)

end Server

/-- The entries of a record whose values are given. -/
def givenEntries (fields : List (String × Value)) : List (Value × Value) :=
  (fields.filter (·.2.isTruthy)).map fun (name, v) => (.str name, v)

/-- Where the sources are. -/
structure Workspace where
  path : Value := .str ""
  deriving Inhabited

namespace Workspace

/-- The workspace that a section describes. -/
def decode (section? : Option Value) : Outcome Workspace := do
  let v := Value.orEmpty section?
  return { path := ← v.getD "path" (.str "") }

/-- The fields that are given. -/
def entries (w : Workspace) : List (Value × Value) := givenEntries [("path", w.path)]

/-- Equality of the records. -/
def equal (w x : Workspace) : Bool := w.path.equal x.path

end Workspace

/-- The platform of the host. -/
structure Platform where
  os : Value := .str ""
  arch : Value := .str ""
  variant : Value := .str ""
  version : Value := .str ""
  deriving Inhabited

namespace Platform

/-- The platform that a section describes; its version is always a text. -/
def decode (section? : Option Value) : Outcome Platform := do
  let v := Value.orEmpty section?
  return {
    os := ← v.getD "os" (.str "")
    arch := ← v.getD "arch" (.str "")
    variant := ← v.getD "variant" (.str "")
    version := .str (← (← v.getD "version" (.str "")).toScalarText) }

/-- The fields that are given. -/
def entries (p : Platform) : List (Value × Value) :=
  givenEntries [("os", p.os), ("arch", p.arch), ("variant", p.variant), ("version", p.version)]

/-- Equality of the records. -/
def equal (p q : Platform) : Bool :=
  p.os.equal q.os && p.arch.equal q.arch && p.variant.equal q.variant
    && p.version.equal q.version

end Platform

/-- How the sources are cloned. A depth of zero means the full history. -/
structure Clone where
  depth : Value := .int 0
  disable : Value := .bool false
  skipVerify : Value := .bool false
  deriving Inhabited

namespace Clone

/-- The clone settings that a section describes. -/
def decode (section? : Option Value) : Outcome Clone := do
  let v := Value.orEmpty section?
  return {
    depth := ← v.getD "depth" (.int 0)
    disable := ← v.getD "disable" (.bool false)
    skipVerify := ← v.getD "skip_verify" (.bool false) }

/-- The fields that are given; a switch that is on is written as true. -/
def entries (c : Clone) : List (Value × Value) :=
  givenEntries [
    ("depth", c.depth),
    ("disable", .bool c.disable.isTruthy),
    ("skip_verify", .bool c.skipVerify.isTruthy)]

/-- Equality of the records. -/
def equal (c d : Clone) : Bool :=
  c.depth.equal d.depth && c.disable.equal d.disable && c.skipVerify.equal d.skipVerify

end Clone

end PipelineManifest
