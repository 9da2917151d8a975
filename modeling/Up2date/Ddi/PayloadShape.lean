import Up2date.Ddi.Actions

/-!
# Which payloads the decoders handle

The decoders test for the presence of members and then trust the types of what they find.
For each of them two predicates on JSON trees say when it returns and when it reports an
invalid payload; every other tree makes it use an accessor outside its precondition or
lets an exception of `std::stoi` escape. In a list this is decided by the first element
that lacks a demanded member.
-/

namespace Up2date.Ddi

open Cxx Uri
open Json (Value)

/-- The member is a JSON string. -/
def HasString (v : Value) (name : Str) : Prop := ∃ s, v.Has name (.string s)

/-- The member is a JSON string from which `std::stoi` reads an `int`. -/
def HasIntText (v : Value) (name : Str) : Prop :=
  ∃ s n, v.Has name (.string s) ∧ stoi (cstr s) = .ok n

/-- All members of the list are present. -/
def HasAll (v : Value) (names : List Str) : Prop := ∀ name ∈ names, ∃ w, v.Has name w

/-- The value is an object without one of the members. -/
def LacksSome (v : Value) (names : List Str) : Prop := ∃ name ∈ names, v.Lacks name

/-- A link object with an `href` string that parses as a URI. -/
def LinkAccepted (link : Value) : Prop :=
  ∃ s u, link.Has "href".toList (.string s) ∧ URI.fromString (cstr s) = .ok u

/-- A link object with an `href` string that does not parse. -/
def LinkRejected (link : Value) : Prop :=
  ∃ s e, link.Has "href".toList (.string s) ∧ URI.fromString (cstr s) = .error e

/-- The text of a string is read up to its first null character. -/
theorem getCString_eq_ok_iff {v : Value} {s : Str} :
    getCString v = .ok s ↔ ∃ t, v = .string t ∧ s = cstr t := by
  cases v <;>
    simp [getCString, Json.Value.getString, Decoder.demand, Except.map, eq_comm]

/-- A value that is no string is not answered by unexpected_payload. -/
@[simp] theorem not_rejects_getCString {v : Value} : ¬ Decoder.Rejects (getCString v) := by
  cases v <;>
    simp [getCString, Json.Value.getString, Decoder.demand, Except.map, Decoder.Rejects,
      Decoder.raise]

/-- A member that holds a string is read up to the first null character of it. -/
theorem stringMember_eq_ok_iff {v : Value} {name s : Str} :
    stringMember v name = .ok s ↔ ∃ t, v.Has name (.string t) ∧ s = cstr t := by
  simp only [stringMember, Decoder.bind_eq_ok_iff, Decoder.demand_eq_ok_iff, getCString_eq_ok_iff]
  constructor
  · intro h
    obtain ⟨w, hw, t, rfl, hs⟩ := h
    exact ⟨t, hw, hs⟩
  · intro h
    obtain ⟨t, ht, hs⟩ := h
    exact ⟨_, ht, t, rfl, hs⟩

/-- A string member can be read exactly when it is there and holds a string. -/
theorem stringMember_returns_iff {v : Value} {name : Str} :
    Decoder.Returns (stringMember v name) ↔ HasString v name := by
  simp only [Decoder.Returns, stringMember_eq_ok_iff, HasString]
  constructor
  · intro h
    obtain ⟨_, t, ht, _⟩ := h
    exact ⟨t, ht⟩
  · intro h
    obtain ⟨t, ht⟩ := h
    exact ⟨_, t, ht, rfl⟩

/-- A string member that is missing is not answered by unexpected_payload. -/
@[simp] theorem not_rejects_stringMember {v : Value} {name : Str} :
    ¬ Decoder.Rejects (stringMember v name) := by
  simp [stringMember, Decoder.rejects_bind_iff]

/-- A member that holds the text of a number is read by stoi. -/
theorem stoiMember_eq_ok_iff {v : Value} {name : Str} {n : ℤ} :
    stoiMember v name = .ok n ↔ ∃ t, v.Has name (.string t) ∧ stoi (cstr t) = .ok n := by
  simp only [stoiMember, Decoder.bind_eq_ok_iff, stringMember_eq_ok_iff, Decoder.ofStd_eq_ok_iff]
  constructor
  · intro h
    obtain ⟨s, ⟨t, ht, rfl⟩, hn⟩ := h
    exact ⟨t, ht, hn⟩
  · intro h
    obtain ⟨t, ht, hn⟩ := h
    exact ⟨_, ⟨t, ht, rfl⟩, hn⟩

/-- A number can be read from a member exactly when the member holds its text. -/
theorem stoiMember_returns_iff {v : Value} {name : Str} :
    Decoder.Returns (stoiMember v name) ↔ HasIntText v name := by
  simp only [Decoder.Returns, stoiMember_eq_ok_iff, HasIntText]
  exact exists_comm

/-- A text that is no number is not answered by unexpected_payload. -/
@[simp] theorem not_rejects_stoiMember {v : Value} {name : Str} :
    ¬ Decoder.Rejects (stoiMember v name) := by
  simp [stoiMember, Decoder.rejects_bind_iff]

/-- The presence checks pass when every member is there. -/
theorem requireMembers_eq_ok_iff {v : Value} {names : List Str} :
    requireMembers v names = .ok () ↔ HasAll v names := by
  induction names with
  | nil => simp [requireMembers, HasAll]
  | cons name rest ih =>
    simp only [requireMembers, Decoder.bind_eq_ok_iff, Decoder.demand_eq_ok_iff, HasAll,
      List.forall_mem_cons]
    constructor
    · intro h
      obtain ⟨present, hp, h⟩ := h
      cases present with
      | false => simp at h
      | true => exact ⟨Json.Value.hasMember_eq_true_iff.mp hp, ih.mp (by simpa using h)⟩
    · intro h
      obtain ⟨hp, h⟩ := h
      exact ⟨true, Json.Value.hasMember_eq_true_iff.mpr hp, by simpa using ih.mpr h⟩

/-- The check of the members passes exactly when all are there. -/
theorem requireMembers_returns_iff {v : Value} {names : List Str} :
    Decoder.Returns (requireMembers v names) ↔ HasAll v names := by
  rw [← requireMembers_eq_ok_iff]
  exact ⟨fun ⟨_, h⟩ => h, fun h => ⟨(), h⟩⟩

/-- The presence checks reject an object without one of the members. -/
theorem rejects_requireMembers_iff {v : Value} {names : List Str} :
    Decoder.Rejects (requireMembers v names) ↔ LacksSome v names := by
  induction names with
  | nil => simp [requireMembers, LacksSome]
  | cons name rest ih =>
    simp only [requireMembers, Decoder.rejects_bind_iff, Decoder.not_rejects_demand, false_or,
      Decoder.demand_eq_ok_iff]
    constructor
    · intro h
      obtain ⟨present, hp, h⟩ := h
      cases present with
      | false => exact ⟨name, List.mem_cons_self, Json.Value.hasMember_eq_false_iff.mp hp⟩
      | true =>
        obtain ⟨other, hmem, hlacks⟩ := ih.mp (by simpa using h)
        exact ⟨other, List.mem_cons_of_mem _ hmem, hlacks⟩
    · intro h
      obtain ⟨other, hmem, hlacks⟩ := h
      rcases v.member_cases name with hobj | hl | hw
      · exact absurd hlacks.1 hobj
      · exact ⟨false, Json.Value.hasMember_eq_false_iff.mpr hl, by simp⟩
      · refine ⟨true, Json.Value.hasMember_eq_true_iff.mpr hw, ?_⟩
        rcases List.mem_cons.mp hmem with rfl | hmem
        · obtain ⟨w, hw⟩ := hw
          exact absurd hlacks hw.not_lacks
        · simpa using ih.mpr ⟨other, hmem, hlacks⟩

/-- A link is read exactly as the URI in its href. -/
theorem parseHrefObject_eq_ok_iff {link : Value} {u : URI} :
    parseHrefObject link = .ok u ↔
      ∃ s, link.Has "href".toList (.string s) ∧ URI.fromString (cstr s) = .ok u := by
  simp only [parseHrefObject, Decoder.bind_eq_ok_iff, stringMember_eq_ok_iff]
  constructor
  · intro h
    obtain ⟨s, ⟨t, ht, rfl⟩, h⟩ := h
    refine ⟨t, ht, ?_⟩
    cases hu : URI.fromString (cstr t) with
    | ok v => simpa [hu] using h
    | error e => simp [hu] at h
  · intro h
    obtain ⟨t, ht, hu⟩ := h
    exact ⟨_, ⟨t, ht, rfl⟩, by simp [hu]⟩

/-- A link is read exactly when it is an accepted one. -/
theorem parseHrefObject_returns_iff {link : Value} :
    Decoder.Returns (parseHrefObject link) ↔ LinkAccepted link := by
  simp only [Decoder.Returns, parseHrefObject_eq_ok_iff, LinkAccepted]
  exact exists_comm

/-- A link is refused exactly when it is a rejected one. -/
theorem rejects_parseHrefObject_iff {link : Value} :
    Decoder.Rejects (parseHrefObject link) ↔ LinkRejected link := by
  simp only [parseHrefObject, Decoder.rejects_bind_iff, not_rejects_stringMember, false_or,
    stringMember_eq_ok_iff, LinkRejected]
  constructor
  · intro h
    obtain ⟨s, ⟨t, ht, rfl⟩, h⟩ := h
    cases hu : URI.fromString (cstr t) with
    | ok v => simp [hu] at h
    | error e => exact ⟨t, e, ht, hu⟩
  · intro h
    obtain ⟨t, e, ht, hu⟩ := h
    exact ⟨_, ⟨t, ht, rfl⟩, by simp [hu]⟩

/-- Reading a link is clean when it has an `href` string. -/
theorem clean_parseHrefObject_iff {link : Value} :
    Decoder.Clean (parseHrefObject link) ↔ HasString link "href".toList := by
  rw [Decoder.Clean, parseHrefObject_returns_iff, rejects_parseHrefObject_iff]
  refine ⟨?_, ?_⟩
  · intro h
    rcases h with ⟨s, u, hs, _⟩ | ⟨s, e, hs, _⟩ <;> exact ⟨s, hs⟩
  · intro h
    obtain ⟨s, hs⟩ := h
    cases hu : URI.fromString (cstr s) with
    | ok u => exact Or.inl ⟨s, u, hs, hu⟩
    | error e => exact Or.inr ⟨s, e, hs, hu⟩

/-! ### How each step of a decoder contributes -/

section Steps

variable {α : Type}

/-- A decoder is clean when it is clean for the document of the body, if there is one. -/
theorem clean_parseDocument_bind_iff {parse : Str → Option Value} {body : Str}
    {k : Value → Decoder α} :
    Decoder.Clean (parseDocument parse body >>= k) ↔
      ∀ document, parse (cstr body) = some document → Decoder.Clean (k document) := by
  rw [Decoder.clean_bind_iff]
  cases h : parse (cstr body) <;> simp [parseDocument, h]

/-- What follows the check of the members is reached when all are there. -/
theorem returns_requireMembers_bind_iff {v : Value} {names : List Str} {k : Unit → Decoder α} :
    Decoder.Returns (requireMembers v names >>= k) ↔ HasAll v names ∧ Decoder.Returns (k ()) := by
  rw [Decoder.returns_bind_iff, ← requireMembers_eq_ok_iff]
  exact ⟨fun ⟨_, h⟩ => h, fun h => ⟨(), h⟩⟩

/-- The payload is refused when a member is missing, or by what follows. -/
theorem rejects_requireMembers_bind_iff {v : Value} {names : List Str} {k : Unit → Decoder α} :
    Decoder.Rejects (requireMembers v names >>= k) ↔
      LacksSome v names ∨ HasAll v names ∧ Decoder.Rejects (k ()) := by
  rw [Decoder.rejects_bind_iff, rejects_requireMembers_iff, ← requireMembers_eq_ok_iff]
  exact or_congr_right ⟨fun ⟨_, h⟩ => h, fun h => ⟨(), h⟩⟩

/-- A missing member is refused cleanly, whatever would follow. -/
theorem clean_requireMembers_bind_iff {v : Value} {names : List Str} {k : Unit → Decoder α} :
    Decoder.Clean (requireMembers v names >>= k) ↔
      LacksSome v names ∨ HasAll v names ∧ Decoder.Clean (k ()) := by
  simp only [Decoder.Clean, returns_requireMembers_bind_iff, rejects_requireMembers_bind_iff,
    and_or_left]
  exact or_left_comm

/-- What follows the reading of a member is reached with its value. -/
theorem returns_member_bind_iff {v : Value} {name : Str} {k : Value → Decoder α} :
    Decoder.Returns (Decoder.demand (v.member name) >>= k) ↔
      ∃ w, v.Has name w ∧ Decoder.Returns (k w) := by
  simp only [Decoder.returns_bind_iff, Decoder.demand_eq_ok_iff, Value.Has]

/-- Only what follows the reading of a member can refuse the payload. -/
theorem rejects_member_bind_iff {v : Value} {name : Str} {k : Value → Decoder α} :
    Decoder.Rejects (Decoder.demand (v.member name) >>= k) ↔
      ∃ w, v.Has name w ∧ Decoder.Rejects (k w) := by
  simp only [Decoder.rejects_bind_iff, Decoder.not_rejects_demand, false_or,
    Decoder.demand_eq_ok_iff, Value.Has]

/-- The reading of a member is clean when the member is there and what follows is clean. -/
theorem clean_member_bind_iff {v : Value} {name : Str} {k : Value → Decoder α} :
    Decoder.Clean (Decoder.demand (v.member name) >>= k) ↔
      ∃ w, v.Has name w ∧ Decoder.Clean (k w) := by
  simp only [Decoder.clean_bind_iff, Decoder.not_rejects_demand, false_or,
    Decoder.demand_eq_ok_iff, Value.Has]

/-- A test for a member is clean when what follows is clean in the case at hand. -/
theorem clean_hasMember_bind_iff {v : Value} {name : Str} {k : Bool → Decoder α} :
    Decoder.Clean (Decoder.demand (v.hasMember name) >>= k) ↔
      v.Lacks name ∧ Decoder.Clean (k false) ∨
        (∃ w, v.Has name w) ∧ Decoder.Clean (k true) := by
  simp only [Decoder.clean_bind_iff, Decoder.not_rejects_demand, false_or,
    Decoder.demand_eq_ok_iff, ← Value.hasMember_eq_false_iff, ← Value.hasMember_eq_true_iff,
    Bool.exists_bool]

end Steps

/-! ### Cancel actions -/

/-- The trees that `CancelAction.fromString` returns on or rejects. -/
def CancelShape (document : Value) : Prop :=
  LacksSome document ["id".toList, "cancelAction".toList] ∨
    HasAll document ["id".toList, "cancelAction".toList] ∧
      ∃ cancelAction, document.Has "cancelAction".toList cancelAction ∧
        (LacksSome cancelAction ["stopId".toList] ∨
          HasAll cancelAction ["stopId".toList] ∧
            HasIntText cancelAction "stopId".toList ∧ HasIntText document "id".toList)

/-- Reading a cancel action is clean exactly on these trees. -/
theorem clean_cancelAction_iff (parse : Str → Option Value) (body : Str) :
    Decoder.Clean (CancelAction.fromString parse body) ↔
      ∀ document, parse (cstr body) = some document → CancelShape document := by
  simp only [CancelAction.fromString, clean_parseDocument_bind_iff, clean_requireMembers_bind_iff,
    clean_member_bind_iff, CancelShape, ← stoiMember_returns_iff]
  simp only [Decoder.clean_bind_iff, not_rejects_stoiMember, false_or, Decoder.clean_pure,
    and_true, exists_and_right, Decoder.Returns]

/-! ### Deployments -/

/-- The member is a number that fits an `int`. -/
def HasInt (v : Value) (name : Str) : Prop := ∃ w n, v.Has name w ∧ w.getInt = some n

/-- The link an artifact is downloaded from. -/
def DownloadLink (links link : Value) : Prop :=
  links.Has "download".toList link ∨
    links.Lacks "download".toList ∧ links.Has "download-http".toList link

/-- The members demanded of an artifact. -/
def artifactMembers : List Str :=
  ["filename".toList, "hashes".toList, "size".toList, "_links".toList]

/-- The members demanded of the hashes of an artifact. -/
def hashMembers : List Str := ["sha256".toList, "sha1".toList, "md5".toList]

/-- The members demanded of a chunk. -/
def chunkMembers : List Str :=
  ["part".toList, "version".toList, "name".toList, "artifacts".toList]

/-- The members demanded of a deployment. -/
def deploymentMembers : List Str := ["update".toList, "download".toList, "chunks".toList]

/-- An artifact with every demanded member, its hashes and its links. -/
def ArtifactComplete (artifact hashes links : Value) : Prop :=
  HasAll artifact artifactMembers ∧ artifact.Has "hashes".toList hashes ∧
    HasAll hashes hashMembers ∧ artifact.Has "_links".toList links

/-- The artifacts that are decoded. -/
def ArtifactAccepted (artifact : Value) : Prop :=
  ∃ hashes links link, ArtifactComplete artifact hashes links ∧ DownloadLink links link ∧
    HasString artifact "filename".toList ∧ HasInt artifact "size".toList ∧ LinkAccepted link ∧
    HasString hashes "md5".toList ∧ HasString hashes "sha1".toList ∧
    HasString hashes "sha256".toList

/-- The artifacts that are reported as an invalid payload. -/
def ArtifactRejected (artifact : Value) : Prop :=
  LacksSome artifact artifactMembers ∨
    (∃ hashes, HasAll artifact artifactMembers ∧ artifact.Has "hashes".toList hashes ∧
      LacksSome hashes hashMembers) ∨
    ∃ hashes links, ArtifactComplete artifact hashes links ∧
      (links.Lacks "download".toList ∧ links.Lacks "download-http".toList ∨
        ∃ link, DownloadLink links link ∧ HasString artifact "filename".toList ∧
          HasInt artifact "size".toList ∧ LinkRejected link)

/-- The preferred link is named when it exists, the other one when only it does. -/
theorem downloadLink_eq_ok_iff {links : Value} {name : Str} :
    downloadLink links = .ok name ↔
      (∃ w, links.Has "download".toList w) ∧ name = "download".toList ∨
        links.Lacks "download".toList ∧ (∃ w, links.Has "download-http".toList w) ∧
          name = "download-http".toList := by
  simp only [downloadLink, Decoder.bind_eq_ok_iff, Decoder.demand_eq_ok_iff, Bool.exists_bool,
    Value.hasMember_eq_false_iff, Value.hasMember_eq_true_iff, if_true, Bool.false_eq_true,
    if_false, Decoder.pure_eq_ok_iff]
  simp only [exists_and_right, Decoder.exists_eq_ok_iff, requireMembers_returns_iff, HasAll,
    List.forall_mem_singleton]
  rw [or_comm, eq_comm, eq_comm (b := name)]

/-- The chosen link is the one the artifact is downloaded from. -/
theorem downloadLink_member_iff {links link : Value} :
    (∃ name, downloadLink links = .ok name ∧ links.Has name link) ↔ DownloadLink links link := by
  simp only [downloadLink_eq_ok_iff, DownloadLink]
  refine ⟨?_, ?_⟩
  · intro h
    obtain ⟨name, hname, hlink⟩ := h
    rcases hname with ⟨_, rfl⟩ | ⟨hlacks, _, rfl⟩
    · exact Or.inl hlink
    · exact Or.inr ⟨hlacks, hlink⟩
  · intro h
    rcases h with hlink | ⟨hlacks, hlink⟩
    · exact ⟨_, Or.inl ⟨⟨link, hlink⟩, rfl⟩, hlink⟩
    · exact ⟨_, Or.inr ⟨hlacks, ⟨link, hlink⟩, rfl⟩, hlink⟩

/-- Links without any download are an invalid payload. -/
theorem rejects_downloadLink_iff {links : Value} :
    Decoder.Rejects (downloadLink links) ↔
      links.Lacks "download".toList ∧ links.Lacks "download-http".toList := by
  simp only [downloadLink, Decoder.rejects_bind_iff, Decoder.demand_eq_ok_iff, Bool.exists_bool,
    Value.hasMember_eq_false_iff, rejects_requireMembers_iff, LacksSome, Bool.false_eq_true,
    if_false, if_true, Decoder.not_rejects_pure, Decoder.not_rejects_demand, and_false,
    exists_const, or_false, false_or, List.mem_singleton, exists_eq_left]

/-- An artifact is decoded exactly when it is an accepted one. -/
theorem artifact_decode_returns_iff {artifact : Value} :
    Decoder.Returns (Artifact.decode artifact) ↔ ArtifactAccepted artifact := by
  simp only [Artifact.decode, returns_requireMembers_bind_iff, returns_member_bind_iff]
  simp only [Decoder.returns_bind_iff, Decoder.returns_pure, and_true, exists_and_right]
  simp only [Decoder.exists_eq_ok_iff, stringMember_returns_iff, parseHrefObject_returns_iff,
    Decoder.demand_eq_ok_iff]
  refine ⟨?_, ?_⟩
  · intro h
    obtain ⟨hall, hashes, hhashes, hhall, links, hlinks, name, hname, hfilename, size, hsize,
      ⟨n, hn⟩, link, hlink, haccepted, hsums⟩ := h
    exact ⟨hashes, links, link, ⟨hall, hhashes, hhall, hlinks⟩,
      downloadLink_member_iff.mp ⟨name, hname, hlink⟩, hfilename, ⟨size, n, hsize, hn⟩,
      haccepted, hsums⟩
  · intro h
    obtain ⟨hashes, links, link, ⟨hall, hhashes, hhall, hlinks⟩, hdownload, hfilename,
      ⟨size, n, hsize, hn⟩, haccepted, hsums⟩ := h
    obtain ⟨name, hname, hlink⟩ := downloadLink_member_iff.mpr hdownload
    exact ⟨hall, hashes, hhashes, hhall, links, hlinks, name, hname, hfilename, size, hsize,
      ⟨n, hn⟩, link, hlink, haccepted, hsums⟩

/-- An artifact is refused exactly when it is a rejected one. -/
theorem rejects_artifact_decode_iff {artifact : Value} :
    Decoder.Rejects (Artifact.decode artifact) ↔ ArtifactRejected artifact := by
  simp only [Artifact.decode, rejects_requireMembers_bind_iff, rejects_member_bind_iff]
  simp only [Decoder.rejects_bind_iff, not_rejects_stringMember, Decoder.not_rejects_pure,
    Decoder.not_rejects_demand, and_false, exists_false, or_false, false_or, exists_and_right]
  simp only [Decoder.exists_eq_ok_iff, rejects_downloadLink_iff, rejects_parseHrefObject_iff,
    stringMember_returns_iff, Decoder.demand_eq_ok_iff]
  refine or_congr_right ⟨?_, ?_⟩
  · intro h
    obtain ⟨hall, hashes, hhashes, h⟩ := h
    rcases h with hlacks | ⟨hhall, links, hlinks, h⟩
    · exact Or.inl ⟨hashes, hall, hhashes, hlacks⟩
    · refine Or.inr ⟨hashes, links, ⟨hall, hhashes, hhall, hlinks⟩, ?_⟩
      rcases h with hnone | ⟨name, hname, hfilename, size, hsize, ⟨n, hn⟩, link, hlink, hrejected⟩
      · exact Or.inl hnone
      · exact Or.inr ⟨link, downloadLink_member_iff.mp ⟨name, hname, hlink⟩, hfilename,
          ⟨size, n, hsize, hn⟩, hrejected⟩
  · intro h
    rcases h with ⟨hashes, hall, hhashes, hlacks⟩ | ⟨hashes, links, ⟨hall, hhashes, hhall, hlinks⟩, h⟩
    · exact ⟨hall, hashes, hhashes, Or.inl hlacks⟩
    · refine ⟨hall, hashes, hhashes, Or.inr ⟨hhall, links, hlinks, ?_⟩⟩
      rcases h with hnone | ⟨link, hdownload, hfilename, ⟨size, n, hsize, hn⟩, hrejected⟩
      · exact Or.inl hnone
      · obtain ⟨name, hname, hlink⟩ := downloadLink_member_iff.mpr hdownload
        exact Or.inr ⟨name, hname, hfilename, size, hsize, ⟨n, hn⟩, link, hlink, hrejected⟩

/-- A list whose first element outside the accepted ones is a rejected one. -/
def StopsAt (Accepted Rejected : Value → Prop) (items : List Value) : Prop :=
  ∃ before item after, items = before ++ item :: after ∧ (∀ x ∈ before, Accepted x) ∧ Rejected item

/-- A chunk with every demanded member, its texts and its list of artifacts. -/
def ChunkReadable (chunk : Value) (artifacts : List Value) : Prop :=
  HasAll chunk chunkMembers ∧ HasString chunk "name".toList ∧ HasString chunk "version".toList ∧
    HasString chunk "part".toList ∧ chunk.Has "artifacts".toList (.array artifacts)

/-- The chunks that are decoded. -/
def ChunkAccepted (chunk : Value) : Prop :=
  ∃ artifacts, ChunkReadable chunk artifacts ∧ ∀ a ∈ artifacts, ArtifactAccepted a

/-- The chunks that are reported as an invalid payload. -/
def ChunkRejected (chunk : Value) : Prop :=
  LacksSome chunk chunkMembers ∨
    ∃ artifacts, ChunkReadable chunk artifacts ∧ StopsAt ArtifactAccepted ArtifactRejected artifacts

/-- Only an array has elements. -/
theorem elements_eq_some_iff {v : Value} {items : List Value} :
    v.elements = some items ↔ v = .array items := by
  cases v <;> simp [Value.elements]

/-- A member that is a list, read in the two steps of the loops. -/
theorem exists_array_member_iff {v : Value} {name : Str} {P : List Value → Prop} :
    (∃ w, v.member name = some w ∧ ∃ items, w.elements = some items ∧ P items) ↔
      ∃ items, v.Has name (.array items) ∧ P items := by
  simp only [elements_eq_some_iff]
  refine ⟨?_, ?_⟩
  · intro h
    obtain ⟨w, hw, items, hitems, hP⟩ := h
    subst hitems
    exact ⟨items, hw, hP⟩
  · intro h
    obtain ⟨items, hitems, hP⟩ := h
    exact ⟨_, hitems, items, rfl, hP⟩

/-- A chunk is decoded exactly when it is an accepted one. -/
theorem chunk_decode_returns_iff {chunk : Value} :
    Decoder.Returns (Chunk.decode chunk) ↔ ChunkAccepted chunk := by
  simp only [Chunk.decode, returns_requireMembers_bind_iff]
  simp only [Decoder.returns_bind_iff, Decoder.returns_pure, and_true, exists_and_right]
  simp only [Decoder.exists_eq_ok_iff, stringMember_returns_iff, Decoder.returns_mapM_iff,
    artifact_decode_returns_iff, Decoder.demand_eq_ok_iff, exists_array_member_iff]
  simp only [ChunkAccepted, ChunkReadable, chunkMembers, and_assoc, exists_and_left]

/-- A chunk is refused exactly when it is a rejected one. -/
theorem rejects_chunk_decode_iff {chunk : Value} :
    Decoder.Rejects (Chunk.decode chunk) ↔ ChunkRejected chunk := by
  simp only [Chunk.decode, rejects_requireMembers_bind_iff]
  simp only [Decoder.rejects_bind_iff, not_rejects_stringMember, Decoder.not_rejects_pure,
    Decoder.not_rejects_demand, and_false, exists_false, or_false, false_or, exists_and_right]
  simp only [Decoder.exists_eq_ok_iff, stringMember_returns_iff, Decoder.demand_eq_ok_iff,
    Decoder.rejects_mapM_iff, artifact_decode_returns_iff, rejects_artifact_decode_iff,
    exists_array_member_iff]
  simp only [ChunkRejected, ChunkReadable, StopsAt, chunkMembers, and_assoc, exists_and_left]

/-- A deployment with every demanded member, its texts, its window and its list of chunks. -/
def DeploymentReadable (document deployment : Value) (chunks : List Value) : Prop :=
  HasAll deployment deploymentMembers ∧ HasIntText document "id".toList ∧
    HasString deployment "update".toList ∧ HasString deployment "download".toList ∧
    (deployment.Lacks "maintenanceWindow".toList ∨
      HasString deployment "maintenanceWindow".toList) ∧
    deployment.Has "chunks".toList (.array chunks)

/-- The trees that `DeploymentBase.from` returns on or rejects. -/
def DeploymentShape (document : Value) : Prop :=
  LacksSome document ["id".toList, "deployment".toList] ∨
    HasAll document ["id".toList, "deployment".toList] ∧
      ∃ deployment, document.Has "deployment".toList deployment ∧
        (LacksSome deployment deploymentMembers ∨
          ∃ chunks, DeploymentReadable document deployment chunks ∧
            ((∀ c ∈ chunks, ChunkAccepted c) ∨ StopsAt ChunkAccepted ChunkRejected chunks))

/-- The maintenance window is read when it is missing or a string. -/
theorem decodeMaintenanceWindow_returns_iff {deployment : Value} :
    Decoder.Returns (decodeMaintenanceWindow deployment) ↔
      deployment.Lacks "maintenanceWindow".toList ∨
        HasString deployment "maintenanceWindow".toList := by
  simp only [decodeMaintenanceWindow, Decoder.returns_bind_iff, Decoder.demand_eq_ok_iff,
    Bool.exists_bool, Value.hasMember_eq_false_iff, Value.hasMember_eq_true_iff,
    Bool.false_eq_true, if_false, if_true, Decoder.returns_pure, and_true,
    Decoder.exists_eq_ok_iff, stringMember_returns_iff]
  refine or_congr_right ⟨fun h => h.2, fun h => ⟨?_, h⟩⟩
  obtain ⟨s, hs⟩ := h
  exact ⟨_, hs⟩

/-- A maintenance window is never answered by unexpected_payload. -/
@[simp] theorem not_rejects_decodeMaintenanceWindow {deployment : Value} :
    ¬ Decoder.Rejects (decodeMaintenanceWindow deployment) := by
  simp only [decodeMaintenanceWindow, Decoder.rejects_bind_iff, Decoder.not_rejects_demand,
    Decoder.demand_eq_ok_iff, Bool.exists_bool, Bool.false_eq_true, if_false, if_true,
    Decoder.not_rejects_pure, not_rejects_stringMember, and_false, exists_const, or_self,
    not_false_eq_true]

/-- Reading a deployment is clean exactly on these trees. -/
theorem clean_deploymentBase_iff (parse : Str → Option Value) (body : Str) :
    Decoder.Clean (DeploymentBase.from parse body) ↔
      ∀ document, parse (cstr body) = some document → DeploymentShape document := by
  simp only [DeploymentBase.from, clean_parseDocument_bind_iff, clean_requireMembers_bind_iff,
    clean_member_bind_iff]
  refine forall₂_congr fun document _ => ?_
  simp only [Decoder.clean_bind_iff, not_rejects_stringMember, not_rejects_stoiMember,
    not_rejects_decodeMaintenanceWindow, Decoder.not_rejects_demand, false_or,
    Decoder.clean_pure, and_true, exists_and_right]
  simp only [Decoder.exists_eq_ok_iff, stringMember_returns_iff, stoiMember_returns_iff,
    decodeMaintenanceWindow_returns_iff, Decoder.demand_eq_ok_iff, Decoder.returns_mapM_iff,
    Decoder.rejects_mapM_iff, chunk_decode_returns_iff, rejects_chunk_decode_iff,
    exists_array_member_iff]
  simp only [DeploymentShape, DeploymentReadable, StopsAt, deploymentMembers, and_assoc,
    exists_and_left, or_comm]

/-! ### Polling data -/

/-- The `sleep` string of the polling data, empty when an enclosing member is missing. -/
def SleepText (document : Value) (sleep : Str) : Prop :=
  document.Lacks "config".toList ∧ sleep = [] ∨
    ∃ config, document.Has "config".toList config ∧
      (config.Lacks "polling".toList ∧ sleep = [] ∨
        ∃ polling, config.Has "polling".toList polling ∧
          (polling.Lacks "sleep".toList ∧ sleep = [] ∨
            ∃ s, polling.Has "sleep".toList (.string s) ∧ sleep = cstr s))

/-- The links hold none of the named ones, or the first of them has an `href` string. -/
def ActionShape (links : Value) : List (Str × Actions) → Prop
  | [] => True
  | (name, _) :: rest =>
    links.Lacks name ∧ ActionShape links rest ∨
      ∃ link, links.Has name link ∧ HasString link "href".toList

/-- The trees that `PollingData.fromString` returns on or rejects. -/
def PollingShape (document : Value) : Prop :=
  ∃ sleep, SleepText document sleep ∧
    (sleep ≠ [] ∧ scanSleep sleep = none ∨
      (sleep = [] ∨ ∃ time, scanSleep sleep = some time) ∧
        (document.Lacks "_links".toList ∨
          ∃ links, document.Has "_links".toList links ∧ ActionShape links actionLinks))

/-- A member that was found is the member that is read. -/
theorem present_and_member_iff {v : Value} {name : Str} {P : Value → Prop} :
    (∃ w, v.Has name w) ∧ (∃ w, v.Has name w ∧ P w) ↔ ∃ w, v.Has name w ∧ P w :=
  ⟨fun h => h.2, fun ⟨w, hw, hP⟩ => ⟨⟨w, hw⟩, w, hw, hP⟩⟩

/-- The text of the sleep time is the one at config.polling.sleep, and empty without it. -/
theorem sleepTimeString_eq_ok_iff {document : Value} {sleep : Str} :
    sleepTimeString document = .ok sleep ↔ SleepText document sleep := by
  simp only [sleepTimeString, Decoder.bind_eq_ok_iff, Decoder.demand_eq_ok_iff, Bool.exists_bool,
    Value.hasMember_eq_false_iff, Value.hasMember_eq_true_iff, Bool.false_eq_true, if_false,
    if_true, Decoder.pure_eq_ok_iff, stringMember_eq_ok_iff, present_and_member_iff, SleepText,
    eq_comm (a := ([] : Str))]
  refine or_congr_right (exists_congr fun config => and_congr_right fun _ => or_congr_right
    (exists_congr fun polling => and_congr_right fun _ => or_congr_right ⟨fun h => h.2, ?_⟩))
  intro h
  obtain ⟨t, ht, hsleep⟩ := h
  exact ⟨⟨_, ht⟩, t, ht, hsleep⟩

/-- The text of the sleep time is never answered by unexpected_payload. -/
@[simp] theorem not_rejects_sleepTimeString {document : Value} :
    ¬ Decoder.Rejects (sleepTimeString document) := by
  simp only [sleepTimeString, Decoder.rejects_bind_iff, Decoder.demand_eq_ok_iff,
    Bool.exists_bool, Bool.false_eq_true, if_false, if_true, Decoder.not_rejects_pure,
    Decoder.not_rejects_demand, not_rejects_stringMember, and_false, exists_false, or_self,
    not_false_eq_true]

/-- A sleep time is refused when it is there and sscanf does not read it. -/
theorem rejects_decodeSleepTime_iff {sleep : Str} :
    Decoder.Rejects (decodeSleepTime sleep) ↔ sleep ≠ [] ∧ scanSleep sleep = none := by
  unfold decodeSleepTime
  split
  · simp_all
  · cases scanSleep sleep <;> simp_all

/-- A sleep time is understood when it is empty or sscanf reads it. -/
theorem decodeSleepTime_returns_iff {sleep : Str} :
    Decoder.Returns (decodeSleepTime sleep) ↔ sleep = [] ∨ ∃ time, scanSleep sleep = some time := by
  unfold decodeSleepTime
  split
  · simp_all
  · cases scanSleep sleep <;> simp_all [Decoder.Returns]

/-- The search for an action is clean exactly on links of the right shape. -/
theorem clean_decodeAction_iff {links : Value} {names : List (Str × Actions)} :
    Decoder.Clean (decodeAction links names) ↔ ActionShape links names := by
  induction names with
  | nil => simp only [decodeAction, ActionShape, Decoder.clean_pure]
  | cons head rest ih =>
    simp only [decodeAction, clean_hasMember_bind_iff, Bool.false_eq_true, if_false, if_true, ih,
      clean_member_bind_iff, present_and_member_iff, ActionShape]
    simp only [Decoder.clean_bind_pure_iff, clean_parseHrefObject_iff]

/-- Reading polling data is clean exactly on these trees. -/
theorem clean_pollingData_iff (parse : Str → Option Value) (body : Str) :
    Decoder.Clean (PollingData.fromString parse body) ↔
      ∀ document, parse (cstr body) = some document → PollingShape document := by
  simp only [PollingData.fromString, clean_parseDocument_bind_iff]
  refine forall₂_congr fun document _ => ?_
  rw [Decoder.clean_bind_iff]
  simp only [not_rejects_sleepTimeString, false_or, sleepTimeString_eq_ok_iff]
  refine exists_congr fun sleep => and_congr_right fun _ => ?_
  rw [Decoder.clean_bind_iff]
  simp only [clean_hasMember_bind_iff, Bool.false_eq_true, if_false, if_true, Decoder.clean_pure,
    and_true, clean_member_bind_iff, present_and_member_iff]
  simp only [Decoder.clean_bind_pure_iff, clean_decodeAction_iff, exists_and_right,
    Decoder.exists_eq_ok_iff, rejects_decodeSleepTime_iff, decodeSleepTime_returns_iff]

/-- The condition under which the three decoders keep their contract on one body. -/
def PayloadHandled (parse : Str → Option Value) (body : Str) (Shape : Value → Prop) : Prop :=
  ∀ document, parse (cstr body) = some document → Shape document

/-- Each decoder returns or reports an invalid payload exactly on the trees of its shape. -/
theorem decoders_clean_iff (parse : Str → Option Value) (body : Str) :
    (Decoder.Clean (PollingData.fromString parse body) ↔
      PayloadHandled parse body PollingShape) ∧
    (Decoder.Clean (CancelAction.fromString parse body) ↔
      PayloadHandled parse body CancelShape) ∧
    (Decoder.Clean (DeploymentBase.from parse body) ↔
      PayloadHandled parse body DeploymentShape) :=
  ⟨clean_pollingData_iff parse body, clean_cancelAction_iff parse body,
    clean_deploymentBase_iff parse body⟩

/-- The parser on the two-character body of an empty list. -/
def parseEmptyList (s : Str) : Option Value :=
  if s = "[]".toList then some (.array []) else none

/-- None of the decoders keeps its contract on an empty list. -/
theorem decoders_not_clean :
    ¬ Decoder.Clean (PollingData.fromString parseEmptyList "[]".toList) ∧
      ¬ Decoder.Clean (CancelAction.fromString parseEmptyList "[]".toList) ∧
      ¬ Decoder.Clean (DeploymentBase.from parseEmptyList "[]".toList) := by
  have hpolling : PollingData.fromString parseEmptyList "[]".toList = .error .undefined := by rfl
  have hcancel : CancelAction.fromString parseEmptyList "[]".toList = .error .undefined := by rfl
  have hdeployment : DeploymentBase.from parseEmptyList "[]".toList = .error .undefined := by rfl
  rw [hpolling, hcancel, hdeployment]
  exact ⟨Decoder.not_clean_undefined, Decoder.not_clean_undefined, Decoder.not_clean_undefined⟩

end Up2date.Ddi
