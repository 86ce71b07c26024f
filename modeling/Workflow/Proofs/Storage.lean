import Workflow.Artifact
import Workflow.Proofs.Codecs
import Workflow.Compile.Elements

/-!
# Stored nets are read back

The codecs of a net and of its parts are made of lawful ones, so they are lawful. The
version of an artifact is a number of four bytes in front of the net. The bytes of an
artifact therefore say where they end: read from the front of any bytes that begin with
them, they give the artifact again if its version is the one in use, and otherwise the
refusal of exactly its version, whatever follows.
-/

namespace Workflow

namespace Codec

/-- The kind of an element is restored from its number. -/
theorem elementKind_lawful : elementKind.Lawful where
  restores kind _ rest := by
    have small : kind.index < 4294967296 := by cases kind <;> decide
    have number := word32_restores kind.index small rest
    simp only [elementKind, number, ElementKind.all_index]
  filled kind := length_encodeNumber_pos kind.index

/-- An attribute of an extension is restored. -/
theorem extensionAttribute_lawful : extensionAttribute.Lawful :=
  (text_lawful.pair (text_lawful.pair text_lawful)).convert _ _ fun _ => rfl

/-- An extension is restored. -/
theorem extension_lawful : extension.Lawful :=
  (text_lawful.pair (text_lawful.pair (text_lawful.pair
    (text_lawful.option.pair extensionAttribute_lawful.list)))).convert _ _ fun _ => rfl

/-- An element is restored. -/
theorem element_lawful : element.Lawful :=
  (text_lawful.pair (elementKind_lawful.pair (text_lawful.option.pair (text_lawful.option.pair
    (text_lawful.option.pair extension_lawful.list))))).convert _ _ fun _ => rfl

/-- A flow is restored. -/
theorem flow_lawful : flow.Lawful :=
  (text_lawful.option.pair (text_lawful.pair (text_lawful.pair
    (text_lawful.option.pair bool_lawful)))).convert _ _ fun _ => rfl

/-- A net is restored. -/
theorem net_lawful : net.Lawful :=
  (text_lawful.pair (text_lawful.option.pair (bool_lawful.pair
    (element_lawful.list.pair flow_lawful.list)))).convert _ _ fun _ => rfl

/-- An artifact is restored if its version takes four bytes. -/
theorem artifact_restores (value : Artifact) (word : value.version < 4294967296)
    (counted : value.toBytes.length < countLimit) : artifact.Restores value := by
  intro rest
  have parts : (net.encode value.net).length < countLimit := by
    simp only [Artifact.toBytes, artifact, convert, pair, List.length_append] at counted
    omega
  have both : (pair word32 net).Restores (value.version, value.net) :=
    (word32_restores value.version word).pair (net_lawful.restores value.net parts)
  simp only [artifact, convert, both rest]

end Codec

/-- A refused version is told together with the version in use. -/
theorem message_unsupportedVersion (version : Nat) :
    (ArtifactError.unsupportedVersion version).message =
      "Artifact error: Unsupported artifact version " ++ toString version ++ " (expected 1)" := by
  have expected : " (expected " ++ (toString artifactVersion ++ ")") = " (expected 1)" := by decide
  change "Artifact error: Unsupported artifact version " ++ toString version ++ " (expected " ++
    toString artifactVersion ++ ")" = _
  simp only [String.append_assoc, expected]

/-- The bytes of an artifact, with any bytes behind them, are read as this artifact if its
version is the one in use, and otherwise refused for its version, with a message that names
both versions. The version is a number of four bytes, and the bytes of the artifact can be
counted in eight, as those of anything in memory. -/
theorem artifact_readBack (artifact : Artifact) (word : artifact.version < 4294967296)
    (counted : artifact.toBytes.length < Codec.countLimit) (rest : List UInt8) :
    Artifact.ofBytes (artifact.toBytes ++ rest) =
        (if artifact.version = artifactVersion then .ok artifact
          else .error (.unsupportedVersion artifact.version)) ∧
      (ArtifactError.unsupportedVersion artifact.version).message =
        "Artifact error: Unsupported artifact version " ++ toString artifact.version ++
          " (expected 1)" := by
  have read := Codec.artifact_restores artifact word counted rest
  constructor
  · simp only [Artifact.ofBytes, Artifact.toBytes, read]
  · exact message_unsupportedVersion artifact.version

/-- A net with a text beyond ASCII, absent and present values and both forms of extensions. -/
def annotatedNet : Net :=
  { id := "p"
    elements := [
      { id := "task", kind := .userTask, name := some endEventName,
        extensions := [Extension.ofText parameterKey "1,2",
          Extension.ofAttributes permissionsKey [("field", "f"), ("permission", "")]] }]
    flows := [{ id := some "", source := "task", target := "task", isDefault := true }] }

/-- The net meets the premises in a version whose number takes three bytes, and in the
version in use, with bytes behind it. -/
theorem artifact_readBack_annotatedNet :
    ((300 : Nat) < 4294967296 ∧
      (⟨300, annotatedNet⟩ : Artifact).toBytes.length < Codec.countLimit ∧
      Artifact.ofBytes ((⟨300, annotatedNet⟩ : Artifact).toBytes ++ [253, 0]) =
        .error (.unsupportedVersion 300) ∧
      (ArtifactError.unsupportedVersion 300).message =
        "Artifact error: Unsupported artifact version " ++ toString 300 ++ " (expected 1)") ∧
    (artifactVersion < 4294967296 ∧
      (Artifact.ofNet annotatedNet).toBytes.length < Codec.countLimit ∧
      Artifact.ofBytes ((Artifact.ofNet annotatedNet).toBytes ++ [253, 0]) =
        .ok (Artifact.ofNet annotatedNet)) := by
  have later : (⟨300, annotatedNet⟩ : Artifact).toBytes.length < Codec.countLimit := by
    decide +kernel
  have current : (Artifact.ofNet annotatedNet).toBytes.length < Codec.countLimit := by
    decide +kernel
  refine ⟨⟨by decide, later, ?_⟩, by decide, current, ?_⟩
  · exact artifact_readBack ⟨300, annotatedNet⟩ (by decide) later [253, 0]
  · exact (artifact_readBack (Artifact.ofNet annotatedNet) (by decide) current [253, 0]).1

end Workflow
