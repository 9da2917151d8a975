import Up2date.Ddi.Exceptions
import Up2date.Json.Value

/-!
# Decoding polling data and actions

`parse` stands for the JSON parser of `rapidjson`, which reads a null-terminated string and
yields a tree or a parse error. The decoders check that members are present, then read them
with the accessors; `GetString` hands out a C string, so a null character inside a JSON
string ends it.
-/

namespace Up2date.Ddi

open Cxx Uri
open Json (Value)

/-- `GetString` read as a C string. -/
def getCString (v : Value) : Decoder Str := (Decoder.demand v.getString).map cstr

/-- `v[name].GetString()` -/
def stringMember (v : Value) (name : Str) : Decoder Str := do
  let w ← Decoder.demand (v.member name)
  getCString w

/-- `std::stoi(v[name].GetString())` -/
def stoiMember (v : Value) (name : Str) : Decoder ℤ := do
  let s ← stringMember v name
  Decoder.ofStd (stoi s)

/-- Check that all members are present, in order. -/
def requireMembers (v : Value) : List Str → Decoder Unit
  | [] => pure ()
  | name :: rest => do
    let present ← Decoder.demand (v.hasMember name)
    if present then requireMembers v rest else Decoder.raise .unexpectedPayload

/-- Parse a body, a null-terminated string. -/
def parseDocument (parse : Str → Option Value) (body : Str) : Decoder Value :=
  match parse (cstr body) with
  | none => Decoder.raise .unexpectedPayload
  | some document => .ok document

/-- `ddi::parseHrefObject` -/
def parseHrefObject (hrefObject : Value) : Decoder URI := do
  let href ← stringMember hrefObject "href".toList
  match URI.fromString href with
  | .ok uri => pure uri
  | .error _ => Decoder.raise .unexpectedPayload

/-- `CancelAction_` -/
structure CancelAction where
  id : ℤ
  stopId : ℤ
deriving DecidableEq, Repr

/-- `CancelAction::fromString`. -/
def CancelAction.fromString (parse : Str → Option Value) (body : Str) : Decoder CancelAction := do
  let document ← parseDocument parse body
  requireMembers document ["id".toList, "cancelAction".toList]
  let cancelAction ← Decoder.demand (document.member "cancelAction".toList)
  requireMembers cancelAction ["stopId".toList]
  let stopId ← stoiMember cancelAction "stopId".toList
  let id ← stoiMember document "id".toList
  pure { id, stopId }

/-- `ddi::Hashes` -/
structure Hashes where
  sha1 : Str
  md5 : Str
  sha256 : Str
deriving DecidableEq, Repr

/-- `Artifact_`, whose download provider is always the client. -/
structure Artifact where
  filename : Str
  fileHash : Hashes
  fileSize : ℤ
  downloadURI : URI
deriving DecidableEq, Repr

/-- `Chunk_` -/
structure Chunk where
  part : Str
  version : Str
  name : Str
  artifacts : List Artifact
deriving DecidableEq, Repr

/-- `DeploymentBase_` -/
structure DeploymentBase where
  id : ℤ
  downloadType : Str
  updateType : Str
  inMaintenanceWindow : Bool
  chunks : List Chunk
deriving DecidableEq, Repr

/-- The name of the link to follow: `download`, or else `download-http`. -/
def downloadLink (links : Value) : Decoder Str := do
  let useDownload ← Decoder.demand (links.hasMember "download".toList)
  if useDownload then pure "download".toList
  else do
    requireMembers links ["download-http".toList]
    pure "download-http".toList

/-- One turn of the loop over the artifacts of a chunk. -/
def Artifact.decode (artifact : Value) : Decoder Artifact := do
  requireMembers artifact ["filename".toList, "hashes".toList, "size".toList, "_links".toList]
  let hashes ← Decoder.demand (artifact.member "hashes".toList)
  requireMembers hashes ["sha256".toList, "sha1".toList, "md5".toList]
  let links ← Decoder.demand (artifact.member "_links".toList)
  let linkName ← downloadLink links
  let filename ← stringMember artifact "filename".toList
  let size ← Decoder.demand (artifact.member "size".toList)
  let fileSize ← Decoder.demand size.getInt
  let link ← Decoder.demand (links.member linkName)
  let downloadURI ← parseHrefObject link
  let md5 ← stringMember hashes "md5".toList
  let sha1 ← stringMember hashes "sha1".toList
  let sha256 ← stringMember hashes "sha256".toList
  pure { filename, fileHash := { sha1, md5, sha256 }, fileSize, downloadURI }

/-- One turn of the loop over the chunks. -/
def Chunk.decode (chunk : Value) : Decoder Chunk := do
  requireMembers chunk ["part".toList, "version".toList, "name".toList, "artifacts".toList]
  let name ← stringMember chunk "name".toList
  let version ← stringMember chunk "version".toList
  let part ← stringMember chunk "part".toList
  let artifacts ← Decoder.demand (chunk.member "artifacts".toList)
  let items ← Decoder.demand artifacts.elements
  let artifacts ← items.mapM Artifact.decode
  pure { part, version, name, artifacts }

/-- Without a `maintenanceWindow` the client is in one. -/
def decodeMaintenanceWindow (deployment : Value) : Decoder Bool := do
  let present ← Decoder.demand (deployment.hasMember "maintenanceWindow".toList)
  if present then do
    let window ← stringMember deployment "maintenanceWindow".toList
    pure (decide (window ≠ "unavailable".toList))
  else pure true

/-- `DeploymentBase::from`. -/
def DeploymentBase.from (parse : Str → Option Value) (body : Str) : Decoder DeploymentBase := do
  let document ← parseDocument parse body
  requireMembers document ["id".toList, "deployment".toList]
  let deployment ← Decoder.demand (document.member "deployment".toList)
  requireMembers deployment ["update".toList, "download".toList, "chunks".toList]
  let id ← stoiMember document "id".toList
  let updateType ← stringMember deployment "update".toList
  let downloadType ← stringMember deployment "download".toList
  let inMaintenanceWindow ← decodeMaintenanceWindow deployment
  let chunks ← Decoder.demand (deployment.member "chunks".toList)
  let items ← Decoder.demand chunks.elements
  let chunks ← items.mapM Chunk.decode
  pure { id, downloadType, updateType, inMaintenanceWindow, chunks }

/-- `Actions_` -/
inductive Actions
  | getConfigData | cancelAction | deploymentBase | none
deriving DecidableEq, Repr

/-- `PollingData_` -/
structure PollingData where
  sleepTime : ℤ
  action : Actions
  followURI : URI
deriving DecidableEq, Repr

/-- The three conversions of `sscanf(s, "%d:%d:%d", &hh, &mm, &ss)`, all required. -/
def scanSleep (s : Str) : Option (ℤ × ℤ × ℤ) :=
  match scanInt s with
  | some (hh, ':' :: afterHours) =>
    match scanInt afterHours with
    | some (mm, ':' :: afterMinutes) => (scanInt afterMinutes).map fun ss => (hh, mm, ss.1)
    | _ => none
  | _ => none

/-- `(hh * 3600 + mm * 60 + ss) * 1000` in `int` arithmetic. -/
def sleepMilliseconds (hh mm ss : ℤ) : ℤ :=
  wrapInt (wrapInt (wrapInt (wrapInt (hh * 3600) + wrapInt (mm * 60)) + ss) * 1000)

/-- The `sleep` string, empty when one of the enclosing members is missing. -/
def sleepTimeString (document : Value) : Decoder Str := do
  if ← Decoder.demand (document.hasMember "config".toList) then
    let config ← Decoder.demand (document.member "config".toList)
    if ← Decoder.demand (config.hasMember "polling".toList) then
      let polling ← Decoder.demand (config.member "polling".toList)
      if ← Decoder.demand (polling.hasMember "sleep".toList) then
        return ← stringMember polling "sleep".toList
  return []

/-- The polling time in milliseconds, -1 when the server sets none. -/
def decodeSleepTime (sleep : Str) : Decoder ℤ :=
  if sleep = [] then pure (-1)
  else
    match scanSleep sleep with
    | none => Decoder.raise .unexpectedPayload
    | some (hh, mm, ss) => pure (sleepMilliseconds hh mm ss)

/-- The links that name an action, in the order in which they are tried. -/
def actionLinks : List (Str × Actions) :=
  [("configData".toList, .getConfigData), ("cancelAction".toList, .cancelAction),
    ("deploymentBase".toList, .deploymentBase)]

/-- The first action link that is present and the URI it refers to. -/
def decodeAction (links : Value) : List (Str × Actions) → Decoder (Actions × URI)
  | [] => pure (.none, {})
  | (name, action) :: rest => do
    if ← Decoder.demand (links.hasMember name) then
      let link ← Decoder.demand (links.member name)
      let followURI ← parseHrefObject link
      return (action, followURI)
    else decodeAction links rest

/-- `PollingData::fromString`. -/
def PollingData.fromString (parse : Str → Option Value) (body : Str) : Decoder PollingData := do
  let document ← parseDocument parse body
  let sleep ← sleepTimeString document
  let sleepTime ← decodeSleepTime sleep
  if ← Decoder.demand (document.hasMember "_links".toList) then
    let links ← Decoder.demand (document.member "_links".toList)
    let (action, followURI) ← decodeAction links actionLinks
    return { sleepTime, action, followURI }
  else return { sleepTime, action := .none, followURI := {} }

end Up2date.Ddi
