import Workflow.Artifact.Codec
import Workflow.Net.Basic

/-!
# Artifacts

An artifact is a net packed for storage: a version number, then the net,
field after field. The version in use is one. Bytes are read completely before
the version is looked at, and bytes behind the net are ignored.

Saving and loading are described by what the file system answers, so the outcome
of both is a function of that answer.
-/

namespace Workflow

/-- A net with the version of the form it is stored in. -/
structure Artifact where
  version : Nat
  net : Net
deriving DecidableEq, Repr

/-- The version of the form in use. -/
def artifactVersion : Nat := 1

/-- Why an artifact cannot be saved or loaded. -/
inductive ArtifactError where
  | undecodable (fault : DecodeFault)
  | unsupportedVersion (version : Nat)
  | cannotCreate (path reason : String)
  | cannotWrite (path reason : String)
  | cannotOpen (path reason : String)
  | cannotRead (path reason : String)
deriving DecidableEq, Repr

/-- The message of a failure. -/
def ArtifactError.message : ArtifactError → String
  | undecodable fault => "Artifact error: Deserialization failed: " ++ fault.name
  | unsupportedVersion version =>
      "Artifact error: Unsupported artifact version " ++ toString version ++ " (expected " ++
        toString artifactVersion ++ ")"
  | cannotCreate path reason =>
      "Artifact error: Could not create file '" ++ path ++ "': " ++ reason
  | cannotWrite path reason =>
      "Artifact error: Could not write to file '" ++ path ++ "': " ++ reason
  | cannotOpen path reason => "Artifact error: Could not open file '" ++ path ++ "': " ++ reason
  | cannotRead path reason =>
      "Artifact error: Could not read from file '" ++ path ++ "': " ++ reason

namespace Codec

/-- A kind of elements, as its place among all kinds. -/
def elementKind : Codec ElementKind where
  encode kind := word32.encode kind.index
  decode bytes :=
    match word32.decode bytes with
    | .error fault => .error fault
    | .ok (index, rest) =>
        match ElementKind.all[index]? with
        | some kind => .ok (kind, rest)
        | none => .error .kindNumber

/-- An attribute of an extension. -/
def extensionAttribute : Codec ExtensionAttribute :=
  (pair text (pair text text)).convert
    (fun entry => (entry.namespaceUri, entry.name, entry.value))
    (fun (namespaceUri, name, value) => ⟨namespaceUri, name, value⟩)

/-- An extension. -/
def extension : Codec Extension :=
  (pair text (pair text (pair text (pair (option text) (list extensionAttribute))))).convert
    (fun extension => (extension.namespaceUri, extension.qualifier, extension.name, extension.text,
      extension.attributes))
    (fun (namespaceUri, qualifier, name, text, attributes) =>
      ⟨namespaceUri, qualifier, name, text, attributes⟩)

/-- An element. -/
def element : Codec Element :=
  (pair text (pair elementKind (pair (option text) (pair (option text) (pair (option text)
    (list extension)))))).convert
    (fun element => (element.id, element.kind, element.name, element.implementation,
      element.defaultFlow, element.extensions))
    (fun (id, kind, name, implementation, defaultFlow, extensions) =>
      ⟨id, kind, name, implementation, defaultFlow, extensions⟩)

/-- A flow. -/
def flow : Codec Flow :=
  (pair (option text) (pair text (pair text (pair (option text) bool)))).convert
    (fun flow => (flow.id, flow.source, flow.target, flow.condition, flow.isDefault))
    (fun (id, source, target, condition, isDefault) => ⟨id, source, target, condition, isDefault⟩)

/-- A net. -/
def net : Codec Net :=
  (pair text (pair (option text) (pair bool (pair (list element) (list flow))))).convert
    (fun net => (net.id, net.name, net.executable, net.elements, net.flows))
    (fun (id, name, executable, elements, flows) => ⟨id, name, executable, elements, flows⟩)

/-- An artifact of any version. -/
def artifact : Codec Artifact :=
  (pair word32 net).convert (fun artifact => (artifact.version, artifact.net))
    (fun (version, net) => ⟨version, net⟩)

end Codec

namespace Artifact

/-- The artifact of a net in the form in use. -/
def ofNet (net : Net) : Artifact := ⟨artifactVersion, net⟩

/-- The bytes of an artifact. -/
def toBytes (artifact : Artifact) : List UInt8 := Codec.artifact.encode artifact

/-- The artifact that bytes begin with, if its version is the one in use. -/
def ofBytes (bytes : List UInt8) : Except ArtifactError Artifact :=
  match Codec.artifact.decode bytes with
  | .error fault => .error (.undecodable fault)
  | .ok (artifact, _) =>
      if artifact.version = artifactVersion then .ok artifact
      else .error (.unsupportedVersion artifact.version)

end Artifact

/-- How writing to a file ends. -/
inductive WriteAnswer where
  | written
  | notCreated (reason : String)
  | notWritten (reason : String)

/-- How reading from a file ends. -/
inductive ReadAnswer where
  | bytes (content : List UInt8)
  | notOpened (reason : String)
  | notRead (reason : String)

namespace Artifact

/-- The outcome of saving to a path, given how the writing ended. -/
def saved (path : String) : WriteAnswer → Except ArtifactError Unit
  | .written => .ok ()
  | .notCreated reason => .error (.cannotCreate path reason)
  | .notWritten reason => .error (.cannotWrite path reason)

/-- The outcome of loading from a path, given how the reading ended. -/
def loaded (path : String) : ReadAnswer → Except ArtifactError Artifact
  | .bytes content => ofBytes content
  | .notOpened reason => .error (.cannotOpen path reason)
  | .notRead reason => .error (.cannotRead path reason)

end Artifact

end Workflow
