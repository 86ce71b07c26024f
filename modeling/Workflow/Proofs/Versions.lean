import Workflow.Proofs.Storage

/-!
# Artifacts of other versions

The version stands in front of the net, but it is looked at behind it: the bytes are first read to
their end as a net of the form in use. An artifact of another version is therefore told to be one
exactly if its body can be read in this form. A body of another form is refused for the first of its
bytes that do not fit, and its version is never told.

No artifact of another version is accepted, whatever its body is.
-/

namespace Workflow

namespace Codec

/-- Behind a version the net is read from the body. -/
theorem decode_artifact (version : Nat) (word : version < 4294967296) (body : List UInt8) :
    artifact.decode (word32.encode version ++ body) =
      (net.decode body).map fun (net, rest) => (⟨version, net⟩, rest) := by
  simp only [artifact, convert, pair, word32_restores version word body]
  cases net.decode body <;> rfl

end Codec

/-- An artifact of another version is refused for its version if its body is read as a net, and for
the fault of its body otherwise. -/
theorem Artifact.ofBytes_other (version : Nat) (word : version < 4294967296)
    (other : version ≠ artifactVersion) (body : List UInt8) :
    Artifact.ofBytes (Codec.word32.encode version ++ body) =
      match Codec.net.decode body with
      | .ok _ => .error (.unsupportedVersion version)
      | .error fault => .error (.undecodable fault) := by
  rw [Artifact.ofBytes, Codec.decode_artifact version word body]
  cases Codec.net.decode body with
  | error fault => rfl
  | ok result => exact if_neg other

/-- Bytes that begin with another version than the one in use, a number of four bytes, are refused
for this version, with a message that names both versions, exactly if a net in the form in use can
be read from the bytes behind it. If none can, they are refused for the fault in these bytes. -/
theorem ofBytes_otherVersion (version : Nat) (word : version < 4294967296)
    (other : version ≠ artifactVersion) (body : List UInt8) :
    (Artifact.ofBytes (Codec.word32.encode version ++ body) =
        .error (.unsupportedVersion version) ↔
      ∃ net rest, Codec.net.decode body = .ok (net, rest)) ∧
    (∀ fault, Codec.net.decode body = .error fault →
      Artifact.ofBytes (Codec.word32.encode version ++ body) = .error (.undecodable fault)) ∧
    (ArtifactError.unsupportedVersion version).message =
      "Artifact error: Unsupported artifact version " ++ toString version ++ " (expected 1)" := by
  refine ⟨?told, ?hidden, message_unsupportedVersion version⟩
  case told =>
    rw [Artifact.ofBytes_other version word other body]
    cases Codec.net.decode body with
    | ok result => exact iff_of_true rfl ⟨result.1, result.2, rfl⟩
    | error fault => simp
  case hidden =>
    intro fault unread
    rw [Artifact.ofBytes_other version word other body, unread]

/-- The identifier of a net and no name, and behind them a byte that is no truth value. -/
def foreignBody : List UInt8 := [1, 112, 0, 5]

/-- No net is read from these bytes, because of the last of them. -/
theorem decode_foreignBody : Codec.net.decode foreignBody = .error .boolean := by decide +kernel

/-- The same version is told with a body in the form in use, also with more bytes behind it, and
not with a body of another form. -/
theorem ofBytes_otherVersion_annotatedNet :
    (300 : Nat) < 4294967296 ∧ (300 : Nat) ≠ artifactVersion ∧
      Artifact.ofBytes (Codec.word32.encode 300 ++ (Codec.net.encode annotatedNet ++ [7])) =
        .error (.unsupportedVersion 300) ∧
      Artifact.ofBytes (Codec.word32.encode 300 ++ foreignBody) =
        .error (.undecodable .boolean) := by
  have counted : (Codec.net.encode annotatedNet).length < Codec.countLimit := by decide +kernel
  have restored := Codec.net_lawful.restores annotatedNet counted [7]
  have told := ofBytes_otherVersion 300 (by decide) (by decide)
  refine ⟨by decide, by decide, ?_, ?_⟩
  · exact (told _).1.mpr ⟨annotatedNet, [7], restored⟩
  · exact (told foreignBody).2.1 .boolean decode_foreignBody

/-- A version is not told whatever the body is: version two with a body of another form is refused
for a truth value. -/
theorem otherVersion_hidden :
    Artifact.ofBytes (Codec.word32.encode 2 ++ foreignBody) = .error (.undecodable .boolean) ∧
      ¬ ∀ (version : Nat) (body : List UInt8), version < 4294967296 → version ≠ artifactVersion →
        Artifact.ofBytes (Codec.word32.encode version ++ body) =
          .error (.unsupportedVersion version) := by
  have hidden : Artifact.ofBytes (Codec.word32.encode 2 ++ foreignBody) =
      .error (.undecodable .boolean) := by
    rw [Artifact.ofBytes_other 2 (by decide) (by decide), decode_foreignBody]
  refine ⟨hidden, ?_⟩
  intro told
  have refused := told 2 foreignBody (by decide) (by decide)
  rw [hidden] at refused
  cases refused

end Workflow
