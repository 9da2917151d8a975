import Up2date.Ddi.PayloadShape
import Up2date.Json.Text

/-!
# Decoding what the server encodes

A deployment description is what an update server means to send: ids and sizes of 64 bits,
texts of any characters, and at least one download link. Its JSON encoding is decoded into
an object with `int` ids and sizes and with C strings, so the description comes back
exactly when every number fits an `int` and no text is cut at a null character.
-/

namespace Up2date.Ddi

open Cxx Uri
open Json (Value)

/-- A link text together with the URI it parses to. -/
structure Href where
  text : Str
  uri : URI
  parses : URI.fromString text = .ok uri

/-- The download links of an artifact: `download`, or else `download-http`. -/
inductive DownloadLinks
  | download (href : Href) (http : Option Str)
  | downloadHttp (href : Href)

/-- The link that counts. -/
def DownloadLinks.href : DownloadLinks → Href
  | .download href _ => href
  | .downloadHttp href => href

/-- What a server says about one artifact. -/
structure ArtifactDescription where
  filename : Str
  sha1 : Str
  md5 : Str
  sha256 : Str
  size : UInt64
  links : DownloadLinks

/-- What a server says about one chunk. -/
structure ChunkDescription where
  part : Str
  version : Str
  name : Str
  artifacts : List ArtifactDescription

/-- What a server says about one deployment. -/
structure DeploymentDescription where
  id : UInt64
  download : Str
  update : Str
  maintenanceWindow : Option Str
  chunks : List ChunkDescription

/-! ### The encoding -/

/-- A link as the server writes it. -/
def encodeLink (href : Str) : Value := .object [("href".toList, .string href)]

/-- The member _links of an artifact as the server writes it. -/
def DownloadLinks.encode : DownloadLinks → Value
  | .download href none => .object [("download".toList, encodeLink href.text)]
  | .download href (some http) =>
    .object [("download-http".toList, encodeLink http), ("download".toList, encodeLink href.text)]
  | .downloadHttp href => .object [("download-http".toList, encodeLink href.text)]

/-- An artifact as the server writes it. -/
def ArtifactDescription.encode (a : ArtifactDescription) : Value :=
  .object [("filename".toList, .string a.filename),
    ("hashes".toList, .object [("sha1".toList, .string a.sha1), ("md5".toList, .string a.md5),
      ("sha256".toList, .string a.sha256)]),
    ("size".toList, .int a.size.toNat), ("_links".toList, a.links.encode)]

/-- A chunk as the server writes it. -/
def ChunkDescription.encode (c : ChunkDescription) : Value :=
  .object [("part".toList, .string c.part), ("version".toList, .string c.version),
    ("name".toList, .string c.name),
    ("artifacts".toList, .array (c.artifacts.map ArtifactDescription.encode))]

/-- The optional `maintenanceWindow` member. -/
def encodeWindow : Option Str → List (Str × Value)
  | none => []
  | some window => [("maintenanceWindow".toList, .string window)]

/-- A deployment as the server writes it. -/
def DeploymentDescription.encode (d : DeploymentDescription) : Value :=
  .object [("id".toList, .string (decimal d.id.toNat)),
    ("deployment".toList, .object ([("download".toList, .string d.download),
      ("update".toList, .string d.update),
      ("chunks".toList, .array (d.chunks.map ChunkDescription.encode))] ++
      encodeWindow d.maintenanceWindow))]

/-- A cancel action as the server writes it. -/
def encodeCancel (id stopId : UInt64) : Value :=
  .object [("id".toList, .string (decimal id.toNat)),
    ("cancelAction".toList, .object [("stopId".toList, .string (decimal stopId.toNat))])]

/-! ### What the decoder should return -/

/-- The artifact that the handler has to see. -/
def ArtifactDescription.described (a : ArtifactDescription) : Artifact where
  filename := a.filename
  fileHash := { sha1 := a.sha1, md5 := a.md5, sha256 := a.sha256 }
  fileSize := a.size.toNat
  downloadURI := a.links.href.uri

/-- The chunk that the handler has to see. -/
def ChunkDescription.described (c : ChunkDescription) : Chunk where
  part := c.part
  version := c.version
  name := c.name
  artifacts := c.artifacts.map ArtifactDescription.described

/-- The deployment that the handler has to see. -/
def DeploymentDescription.described (d : DeploymentDescription) : DeploymentBase where
  id := d.id.toNat
  downloadType := d.download
  updateType := d.update
  inMaintenanceWindow := decide (d.maintenanceWindow ≠ some "unavailable".toList)
  chunks := d.chunks.map ChunkDescription.described

/-! ### When it does -/

/-- The number fits an `int`. -/
def FitsInt (n : UInt64) : Prop := (n.toNat : ℤ) ≤ intMax

instance (n : UInt64) : Decidable (FitsInt n) := inferInstanceAs (Decidable (_ ≤ _))

/-- The size fits, no text is cut, and the link means the same before its first null character. -/
def ArtifactDescription.Fits (a : ArtifactDescription) : Prop :=
  FitsInt a.size ∧ nul ∉ a.filename ∧ nul ∉ a.sha1 ∧ nul ∉ a.md5 ∧ nul ∉ a.sha256 ∧
    URI.fromString (cstr a.links.href.text) = .ok a.links.href.uri

/-- A chunk fits when its texts have no null character and its artifacts fit. -/
def ChunkDescription.Fits (c : ChunkDescription) : Prop :=
  nul ∉ c.part ∧ nul ∉ c.version ∧ nul ∉ c.name ∧ ∀ a ∈ c.artifacts, a.Fits

/-- The window is not turned into `unavailable` by a null character. -/
def WindowFits (window : Option Str) : Prop :=
  ∀ w, window = some w → cstr w = "unavailable".toList → w = "unavailable".toList

/-- A deployment fits when all that is decoded of it does. -/
def DeploymentDescription.Fits (d : DeploymentDescription) : Prop :=
  FitsInt d.id ∧ nul ∉ d.update ∧ nul ∉ d.download ∧ WindowFits d.maintenanceWindow ∧
    ∀ c ∈ d.chunks, c.Fits

/-- A number is read as an int exactly when it fits into 32 bits. -/
theorem getInt_eq_some_iff {n : UInt64} {m : ℤ} :
    (Value.int n.toNat).getInt = some m ↔ FitsInt n ∧ (n.toNat : ℤ) = m := by
  have hmin : intMin ≤ (n.toNat : ℤ) := le_trans (by decide) (Int.natCast_nonneg _)
  simp only [Value.getInt, hmin, true_and, Option.ite_none_right_eq_some, Option.some.injEq,
    FitsInt]

/-- The decimal text of a number is read exactly when it fits into 32 bits. -/
theorem stoi_decimal_eq_ok_iff {n : UInt64} {m : ℤ} :
    stoi (decimal n.toNat) = .ok m ↔ FitsInt n ∧ (n.toNat : ℤ) = m := by
  rw [stoi_decimal]
  unfold FitsInt
  split <;> simp_all

/-- Every text of an encoded artifact is read as a C string. -/
theorem artifact_decode_encode (a : ArtifactDescription) :
    Artifact.decode a.encode = (do
      let fileSize ← Decoder.demand (Value.int a.size.toNat).getInt
      let downloadURI ← parseHrefObject (encodeLink a.links.href.text)
      pure ⟨cstr a.filename, ⟨cstr a.sha1, cstr a.md5, cstr a.sha256⟩, fileSize, downloadURI⟩) := by
  obtain ⟨filename, sha1, md5, sha256, size, links⟩ := a
  rcases links with ⟨href, _ | http⟩ | href <;> rfl

/-- An artifact is decoded as described exactly when it fits. -/
theorem artifact_decode_encode_iff (a : ArtifactDescription) :
    Artifact.decode a.encode = .ok a.described ↔ a.Fits := by
  have hlink : ∀ u, parseHrefObject (encodeLink a.links.href.text) = .ok u ↔
      URI.fromString (cstr a.links.href.text) = .ok u := by
    intro u
    rw [parseHrefObject_eq_ok_iff]
    constructor
    · intro h
      obtain ⟨s, hs, hu⟩ := h
      have htext : Value.string a.links.href.text = .string s := Option.some.inj hs
      rwa [Value.string.inj htext]
    · exact fun hu => ⟨_, rfl, hu⟩
  simp only [artifact_decode_encode, Decoder.bind_eq_ok_iff, Decoder.demand_eq_ok_iff,
    getInt_eq_some_iff, hlink, Decoder.pure_eq_ok_iff, ArtifactDescription.described,
    Artifact.mk.injEq, Hashes.mk.injEq, cstr_eq_self_iff, ArtifactDescription.Fits]
  refine ⟨?_, ?_⟩
  · intro h
    obtain ⟨n, ⟨hsize, rfl⟩, u, hu, hname, ⟨h1, h5, h256⟩, _, rfl⟩ := h
    exact ⟨hsize, hname, h1, h5, h256, hu⟩
  · intro h
    obtain ⟨hsize, hname, h1, h5, h256, hu⟩ := h
    exact ⟨_, ⟨hsize, rfl⟩, _, hu, hname, ⟨h1, h5, h256⟩, rfl, rfl⟩

/-- A list is decoded into what it describes when each of its elements is. -/
theorem mapM_encode_iff {α β : Type} {decode : Value → Decoder β} {encode : α → Value}
    {described : α → β} {Fits : α → Prop} (items : List α)
    (h : ∀ a, decode (encode a) = .ok (described a) ↔ Fits a) :
    (items.map encode).mapM decode = .ok (items.map described) ↔ ∀ a ∈ items, Fits a := by
  rw [Decoder.mapM_eq_ok_iff, List.forall₂_map_left_iff, List.forall₂_map_right_iff,
    List.forall₂_same]
  simp only [h]

/-- The texts of a chunk are there, so that only its artifacts can fail. -/
theorem chunk_decode_encode (c : ChunkDescription) :
    Chunk.decode c.encode = (do
      let artifacts ← (c.artifacts.map ArtifactDescription.encode).mapM Artifact.decode
      pure ⟨cstr c.part, cstr c.version, cstr c.name, artifacts⟩) := rfl

/-- A chunk is decoded as described exactly when it fits. -/
theorem chunk_decode_encode_iff (c : ChunkDescription) :
    Chunk.decode c.encode = .ok c.described ↔ c.Fits := by
  simp only [chunk_decode_encode, Decoder.bind_eq_ok_iff, Decoder.pure_eq_ok_iff,
    ChunkDescription.described, Chunk.mk.injEq, cstr_eq_self_iff, ChunkDescription.Fits,
    ← mapM_encode_iff c.artifacts artifact_decode_encode_iff]
  refine ⟨?_, ?_⟩
  · intro h
    obtain ⟨artifacts, hartifacts, hpart, hversion, hname, heq⟩ := h
    exact ⟨hpart, hversion, hname, heq ▸ hartifacts⟩
  · intro h
    obtain ⟨hpart, hversion, hname, hartifacts⟩ := h
    exact ⟨_, hartifacts, hpart, hversion, hname, rfl⟩

/-- The window is available to both sides exactly when it fits. -/
theorem windowFits_iff (window : Option Str) :
    (decide (window.map cstr ≠ some "unavailable".toList) =
      decide (window ≠ some "unavailable".toList)) ↔ WindowFits window := by
  cases window with
  | none => simp [WindowFits]
  | some w =>
    have hself : cstr "unavailable".toList = "unavailable".toList := by decide
    simp only [Option.map_some, ne_eq, Option.some.injEq, decide_not, Bool.not_eq_eq_eq_not,
      Bool.not_not, decide_eq_decide, WindowFits, forall_eq']
    refine ⟨fun h => h.mp, fun h => ⟨h, fun hw => ?_⟩⟩
    rw [hw, hself]

/-- Ids are decimal texts, so they are cut nowhere. -/
theorem deployment_from_encode {parse : Str → Option Value} {body : Str}
    {d : DeploymentDescription} (h : parse (cstr body) = some d.encode) :
    DeploymentBase.from parse body = (do
      let id ← Decoder.ofStd (stoi (cstr (decimal d.id.toNat)))
      let chunks ← (d.chunks.map ChunkDescription.encode).mapM Chunk.decode
      pure ⟨id, cstr d.download, cstr d.update,
        decide (d.maintenanceWindow.map cstr ≠ some "unavailable".toList), chunks⟩) := by
  have hdocument : parseDocument parse body = .ok d.encode := by simp only [parseDocument, h]
  unfold DeploymentBase.from
  rw [hdocument]
  obtain ⟨id, download, update, window, chunks⟩ := d
  cases window with
  | none => rfl
  | some w =>
    simp only [Option.map_some, ne_eq, Option.some.injEq]
    rfl

/-- A deployment is decoded as described exactly when it fits. -/
theorem deployment_from_encode_iff {parse : Str → Option Value} {body : Str}
    {d : DeploymentDescription} (h : parse (cstr body) = some d.encode) :
    DeploymentBase.from parse body = .ok d.described ↔ d.Fits := by
  have hchunks := mapM_encode_iff d.chunks chunk_decode_encode_iff
  rw [deployment_from_encode h]
  simp only [Decoder.bind_eq_ok_iff, Decoder.ofStd_eq_ok_iff, cstr_decimal, stoi_decimal_eq_ok_iff,
    Decoder.pure_eq_ok_iff, DeploymentDescription.described, DeploymentBase.mk.injEq,
    cstr_eq_self_iff, windowFits_iff, DeploymentDescription.Fits, ← hchunks]
  refine ⟨?_, ?_⟩
  · intro h
    obtain ⟨n, ⟨hid, rfl⟩, chunks, hc, _, hdownload, hupdate, hwindow, rfl⟩ := h
    exact ⟨hid, hupdate, hdownload, hwindow, hc⟩
  · intro h
    obtain ⟨hid, hupdate, hdownload, hwindow, hc⟩ := h
    exact ⟨_, ⟨hid, rfl⟩, _, hc, rfl, hdownload, hupdate, hwindow, rfl⟩

/-- Of a cancel action only the two identifiers can fail. -/
theorem cancelAction_fromString_encode {parse : Str → Option Value} {body : Str}
    {id stopId : UInt64} (h : parse (cstr body) = some (encodeCancel id stopId)) :
    CancelAction.fromString parse body = (do
      let stopId' ← Decoder.ofStd (stoi (cstr (decimal stopId.toNat)))
      let id' ← Decoder.ofStd (stoi (cstr (decimal id.toNat)))
      pure ⟨id', stopId'⟩) := by
  have hdocument : parseDocument parse body = .ok (encodeCancel id stopId) := by
    simp only [parseDocument, h]
  unfold CancelAction.fromString
  rw [hdocument]
  rfl

/-- A cancel action is decoded exactly when both identifiers fit into 32 bits. -/
theorem cancelAction_fromString_encode_iff {parse : Str → Option Value} {body : Str}
    {id stopId : UInt64} (h : parse (cstr body) = some (encodeCancel id stopId)) :
    CancelAction.fromString parse body = .ok ⟨id.toNat, stopId.toNat⟩ ↔
      FitsInt id ∧ FitsInt stopId := by
  rw [cancelAction_fromString_encode h]
  simp only [Decoder.bind_eq_ok_iff, Decoder.ofStd_eq_ok_iff, cstr_decimal, stoi_decimal_eq_ok_iff,
    Decoder.pure_eq_ok_iff, CancelAction.mk.injEq]
  refine ⟨?_, ?_⟩
  · intro h
    obtain ⟨m, ⟨hstop, rfl⟩, n, ⟨hid, rfl⟩, _, _⟩ := h
    exact ⟨hid, hstop⟩
  · intro h
    obtain ⟨hid, hstop⟩ := h
    exact ⟨_, ⟨hstop, rfl⟩, _, ⟨hid, rfl⟩, rfl, rfl⟩

/-! ### The text of an encoding -/

/-- A link that is written has exact values only. -/
theorem isExact_encodeLink (href : Str) : (encodeLink href).IsExact := by
  simp only [encodeLink, Value.isExact_object_iff, List.forall_mem_singleton]
  exact .string href

/-- The links of an artifact have exact values only. -/
theorem DownloadLinks.isExact_encode (links : DownloadLinks) : links.encode.IsExact := by
  rcases links with ⟨href, _ | http⟩ | href <;>
    simp only [DownloadLinks.encode, Value.isExact_object_iff, List.forall_mem_cons, isExact_encodeLink,
      List.not_mem_nil, IsEmpty.forall_iff, implies_true, and_self]

/-- An artifact that is written has exact values only. -/
theorem ArtifactDescription.isExact_encode (a : ArtifactDescription) : a.encode.IsExact := by
  have hsize : (Value.int a.size.toNat).IsExact :=
    .int (by omega) (by have := a.size.toNat_lt; omega)
  simp only [ArtifactDescription.encode, Value.isExact_object_iff, List.forall_mem_cons, hsize,
    a.links.isExact_encode, Value.IsExact.string, List.not_mem_nil, IsEmpty.forall_iff,
    implies_true, and_self]

/-- A chunk that is written has exact values only. -/
theorem ChunkDescription.isExact_encode (c : ChunkDescription) : c.encode.IsExact := by
  simp only [ChunkDescription.encode, Value.isExact_object_iff, List.forall_mem_cons,
    Value.isExact_array_map ArtifactDescription.isExact_encode, Value.IsExact.string, List.not_mem_nil,
    IsEmpty.forall_iff, implies_true, and_self]

/-- Every description has an exact text. -/
theorem DeploymentDescription.isExact_encode (d : DeploymentDescription) : d.encode.IsExact := by
  have hwindow : ∀ m ∈ encodeWindow d.maintenanceWindow, m.2.IsExact := by
    cases d.maintenanceWindow with
    | none => nofun
    | some window =>
      simp only [encodeWindow, List.forall_mem_singleton]
      exact .string window
  simp only [DeploymentDescription.encode, Value.isExact_object_iff, List.forall_mem_cons,
    List.forall_mem_append, Value.isExact_array_map ChunkDescription.isExact_encode,
    Value.IsExact.string, List.not_mem_nil, IsEmpty.forall_iff, implies_true, true_and, and_true]
  exact hwindow

/-- A cancel action that is written has exact values only. -/
theorem isExact_encodeCancel (id stopId : UInt64) : (encodeCancel id stopId).IsExact := by
  simp only [encodeCancel, Value.isExact_object_iff, List.forall_mem_cons, Value.IsExact.string,
    List.not_mem_nil, IsEmpty.forall_iff, implies_true, and_self]

/-- A deployment of one file. -/
def firmwareAt (href : Href) (size : UInt64) : DeploymentDescription where
  id := 7
  download := "forced".toList
  update := "attempt".toList
  maintenanceWindow := some "available".toList
  chunks := [{
    part := "os".toList
    version := "2".toList
    name := "image".toList
    artifacts := [{
      filename := "f".toList
      sha1 := "1".toList
      md5 := "5".toList
      sha256 := "256".toList
      size
      links := .downloadHttp href }] }]

/-- The deployment of a file at an `http` address. -/
def firmware (size : UInt64) : DeploymentDescription :=
  firmwareAt ⟨"http://h/f".toList,
    { scheme := "http".toList, authority := "h".toList, path := "/f".toList },
    by decide +kernel⟩ size

/-- The deployment of one file fits exactly when the size of the file does. -/
theorem firmware_fits_iff (size : UInt64) : (firmware size).Fits ↔ FitsInt size := by
  have hid : FitsInt 7 := by decide
  have hwindow : WindowFits (some "available".toList) := by
    intro w hw hcut
    rw [← Option.some.inj hw] at hcut ⊢
    revert hcut
    decide
  have hlink : URI.fromString (cstr "http://h/f".toList) = .ok
      { scheme := "http".toList, authority := "h".toList, path := "/f".toList } := by
    decide +kernel
  have htexts : ∀ text ∈ ["forced".toList, "attempt".toList, "os".toList, "2".toList,
      "image".toList, "f".toList, "1".toList, "5".toList, "256".toList], nul ∉ text := by decide
  simp only [List.forall_mem_cons] at htexts
  simp only [firmware, firmwareAt, DeploymentDescription.Fits, ChunkDescription.Fits, ArtifactDescription.Fits,
    DownloadLinks.href, List.forall_mem_singleton, hid, hwindow, hlink, htexts, not_false_eq_true,
    and_true, true_and]

/-- Decoding undoes encoding exactly for the descriptions that fit: of an action with all its
chunks and artifacts, and of a cancellation. -/
theorem decode_encode_iff (parse : Str → Option Value) (body : Str) :
    (∀ d : DeploymentDescription, parse (cstr body) = some d.encode →
      (DeploymentBase.from parse body = .ok d.described ↔ d.Fits)) ∧
    (∀ id stopId : UInt64, parse (cstr body) = some (encodeCancel id stopId) →
      (CancelAction.fromString parse body = .ok ⟨id.toNat, stopId.toNat⟩ ↔
        FitsInt id ∧ FitsInt stopId)) :=
  ⟨fun _ h => deployment_from_encode_iff h, fun _ _ h => cancelAction_fromString_encode_iff h⟩

/-- A deployment of a small file and a cancelation are read back. -/
theorem firmware_decode_encode :
    DeploymentBase.from Json.parse (Json.write (firmware 1024).encode) =
        .ok (firmware 1024).described ∧
      CancelAction.fromString Json.parse (Json.write (encodeCancel 7 8)) = .ok ⟨7, 8⟩ := by
  have hdeployment := Json.readsBack_parse_write _ (firmware 1024).isExact_encode
  have hcancel := Json.readsBack_parse_write _ (isExact_encodeCancel 7 8)
  constructor
  · exact ((decode_encode_iff _ _).1 _ hdeployment).mpr ((firmware_fits_iff 1024).mpr (by decide))
  · exact ((decode_encode_iff _ _).2 7 8 hcancel).mpr ⟨by decide, by decide⟩

/-- Neither the size of a file of 2 GiB nor an id of that size is read back. -/
theorem largeFirmware_not_decoded :
    DeploymentBase.from Json.parse (Json.write (firmware 2147483648).encode) ≠
        .ok (firmware 2147483648).described ∧
      CancelAction.fromString Json.parse (Json.write (encodeCancel 2147483648 7)) ≠
        .ok ⟨2147483648, 7⟩ := by
  have hdeployment := Json.readsBack_parse_write _ (firmware 2147483648).isExact_encode
  have hcancel := Json.readsBack_parse_write _ (isExact_encodeCancel 2147483648 7)
  constructor
  · intro h
    have hfits := (firmware_fits_iff _).mp ((deployment_from_encode_iff hdeployment).mp h)
    revert hfits
    decide
  · intro h
    have hfits := ((cancelAction_fromString_encode_iff hcancel).mp h).1
    revert hfits
    decide

/-- The texts of a server with a deployment: a poll at `/p` is answered with a link to it, and it
is at `/d`. -/
def deployingServer (link : Str) (d : DeploymentDescription) (target : Str) : Str :=
  if target = "/p".toList then
    Json.write (.object [("_links".toList, .object [("deploymentBase".toList, encodeLink link)])])
  else if target = "/d".toList then Json.write d.encode
  else "\x7b\x7d".toList

/-- A server with a file of two bytes. -/
def firmwareServer : Str → Str := deployingServer "http://h/d".toList (firmware 2)

end Up2date.Ddi
