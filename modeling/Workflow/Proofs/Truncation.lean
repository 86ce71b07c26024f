import Workflow.Proofs.Storage

/-!
# Bytes that end too early

Decoding goes through the bytes from the front and never looks ahead. If more bytes follow,
a value that was read stays what it was and the additional bytes are left over; a fault stays
too, unless it was that the bytes end. `Forward` says this of a reader, for all bytes, written
or not, and every reader of an artifact has the property.

With the round trip this settles every cut in a written artifact, wherever it falls: a value
read from the front part would leave the back part over, but of the whole nothing is left.
-/

namespace Workflow

namespace Codec

/-- What becomes of a decoding when more bytes follow. -/
inductive Extended {α : Type} (more : List UInt8) :
    Except DecodeFault (α × List UInt8) → Except DecodeFault (α × List UInt8) → Prop
  | read (value : α) (rest : List UInt8) :
      Extended more (.ok (value, rest)) (.ok (value, rest ++ more))
  | refused (fault : DecodeFault) (found : fault ≠ .ends) :
      Extended more (.error fault) (.error fault)
  | ended (outcome : Except DecodeFault (α × List UInt8)) : Extended more (.error .ends) outcome

/-- The reader decides on the bytes in front without those that follow, or finds that the
bytes end. -/
def Forward {α : Type} (read : List UInt8 → Except DecodeFault (α × List UInt8)) : Prop :=
  ∀ bytes more, Extended more (read bytes) (read (bytes ++ more))

section

variable {α β : Type}

/-- A value that takes no bytes. -/
theorem forward_ok (value : α) : Forward fun bytes => .ok (value, bytes) :=
  fun bytes _ => Extended.read value bytes

/-- A fault that is found whatever the bytes are. -/
theorem forward_error (fault : DecodeFault) (found : fault ≠ .ends) :
    Forward fun _ => (.error fault : Except DecodeFault (α × List UInt8)) :=
  fun _ _ => Extended.refused fault found

/-- A reader that takes one byte and goes on from there. -/
theorem forward_byte {read : List UInt8 → Except DecodeFault (α × List UInt8)}
    (none : read [] = .error .ends) (next : ∀ byte, Forward fun bytes => read (byte :: bytes)) :
    Forward read := by
  intro bytes more
  cases bytes with
  | nil =>
    rw [none]
    exact Extended.ended _
  | cons byte bytes => exact next byte bytes more

/-- What is read after a value from the bytes behind it. -/
def andThen (outcome : Except DecodeFault (α × List UInt8))
    (next : α → List UInt8 → Except DecodeFault (β × List UInt8)) :
    Except DecodeFault (β × List UInt8) :=
  match outcome with
  | .error fault => .error fault
  | .ok (value, rest) => next value rest

/-- One reader after another. -/
theorem Forward.andThen {read : List UInt8 → Except DecodeFault (α × List UInt8)}
    {next : α → List UInt8 → Except DecodeFault (β × List UInt8)} (first : Forward read)
    (second : ∀ value, Forward (next value)) :
    Forward fun bytes => Codec.andThen (read bytes) next := by
  intro bytes more
  have step := first bytes more
  change Extended more (Codec.andThen (read bytes) next) (Codec.andThen (read (bytes ++ more)) next)
  generalize read bytes = short, read (bytes ++ more) = long at step
  cases step with
  | read value rest => exact second value rest more
  | refused fault found => exact Extended.refused fault found
  | ended outcome => exact Extended.ended _

/-- A reader that gives the same for all bytes. -/
theorem Forward.congr {read other : List UInt8 → Except DecodeFault (α × List UInt8)}
    (forward : Forward read) (same : ∀ bytes, other bytes = read bytes) : Forward other := by
  rwa [funext same]

end

/-- So many bytes are read forward. -/
theorem forward_splitBytes (count : Nat) : Forward (splitBytes count) := by
  induction count with
  | zero => exact forward_ok []
  | succ count inductionHypothesis =>
    apply forward_byte rfl
    intro byte
    apply (inductionHypothesis.andThen fun front => forward_ok (byte :: front)).congr
    intro bytes
    rw [splitBytes]
    cases splitBytes count bytes <;> rfl

/-- A number in so many bytes is read forward. -/
theorem forward_decodeWide (count : Nat) : Forward (decodeWide count) := by
  apply ((forward_splitBytes count).andThen fun front => forward_ok (ofLittleEndian front)).congr
  intro bytes
  rw [decodeWide]
  cases splitBytes count bytes <;> rfl

/-- A number is read forward: its marker tells how many bytes follow. -/
theorem forward_decodeNumber (widest : Nat) : Forward (decodeNumber widest) := by
  apply forward_byte rfl
  intro marker
  simp only [decodeNumber]
  split
  · exact forward_ok marker.toNat
  split
  · exact forward_decodeWide 2
  split
  · exact forward_decodeWide 4
  split
  · exact forward_decodeWide 8
  · exact forward_error .integerWidth (by decide)

/-- A truth value is read forward. -/
theorem forward_bool : Forward bool.decode := by
  apply forward_byte rfl
  intro byte
  simp only [bool]
  split
  · exact forward_ok false
  split
  · exact forward_ok true
  · exact forward_error .boolean (by decide)

/-- A value, if there is one, is read without taking any bytes. -/
theorem forward_option_elim {α : Type} (found : Option α) (fault : DecodeFault)
    (other : fault ≠ .ends) :
    Forward fun rest => found.elim (.error fault) fun value => .ok (value, rest) := by
  cases found with
  | some value => exact forward_ok value
  | none => exact forward_error fault other

/-- A text is read forward: its bytes are all there before they are looked at. -/
theorem forward_text : Forward text.decode := by
  have decoded (front : List UInt8) :=
    forward_option_elim (String.fromUTF8? ⟨front.toArray⟩) .text (by decide)
  apply ((forward_decodeNumber 8).andThen fun size =>
    (forward_splitBytes size).andThen decoded).congr
  intro bytes
  simp only [text, bind, Except.bind]
  cases decodeNumber 8 bytes with
  | error fault => rfl
  | ok result =>
    simp only [andThen]
    cases splitBytes result.1 result.2 with
    | error fault => rfl
    | ok parts =>
      obtain ⟨front, rest⟩ := parts
      cases found : String.fromUTF8? ⟨front.toArray⟩ with
      | none => simp [found, throw, throwThe, MonadExceptOf.throw]
      | some text => simp [found, pure, Except.pure]

/-- The kind of an element is read forward. -/
theorem forward_elementKind : Forward elementKind.decode := by
  have known (index : Nat) :=
    forward_option_elim ElementKind.all[index]? .kindNumber (by decide)
  apply ((forward_decodeNumber 4).andThen known).congr
  intro bytes
  simp only [elementKind, word32]
  cases decodeNumber 4 bytes with
  | error fault => rfl
  | ok result =>
    obtain ⟨index, rest⟩ := result
    cases found : ElementKind.all[index]? <;> simp [andThen, found]

section

variable {α β : Type} {codec : Codec α} {second : Codec β}

/-- Two values are read forward one after the other. -/
theorem forward_pair (front : Forward codec.decode) (back : Forward second.decode) :
    Forward (pair codec second).decode := by
  apply (front.andThen fun a => back.andThen fun b => forward_ok (a, b)).congr
  intro bytes
  simp only [pair]
  cases codec.decode bytes with
  | error fault => rfl
  | ok result =>
    obtain ⟨value, rest⟩ := result
    cases read : second.decode rest <;> simp [andThen, read]

/-- A value that may be absent is read forward. -/
theorem forward_option (forward : Forward codec.decode) : Forward (option codec).decode := by
  apply forward_byte rfl
  intro marker
  simp only [option]
  split
  · exact forward_ok none
  split
  · apply (forward.andThen fun value => forward_ok (some value)).congr
    intro bytes
    cases codec.decode bytes <;> rfl
  · exact forward_error .optionMarker (by decide)

/-- So many values are read forward. -/
theorem forward_decodeItems (forward : Forward codec.decode) (count : Nat) :
    Forward (decodeItems codec count) := by
  induction count with
  | zero => exact forward_ok []
  | succ count inductionHypothesis =>
    apply (forward.andThen fun value => inductionHypothesis.andThen fun values =>
      forward_ok (value :: values)).congr
    intro bytes
    rw [decodeItems]
    cases codec.decode bytes with
    | error fault => rfl
    | ok result =>
      simp only [andThen]
      cases decodeItems codec count result.2 <;> rfl

/-- A list is read forward: the number of its items comes first. -/
theorem forward_list (forward : Forward codec.decode) : Forward (list codec).decode := by
  apply ((forward_decodeNumber 8).andThen fun count => forward_decodeItems forward count).congr
  intro bytes
  simp only [list]
  cases decodeNumber 8 bytes <;> rfl

/-- Corresponding values are read forward. -/
theorem forward_convert (forward : Forward codec.decode) (into : β → α) (back : α → β) :
    Forward (codec.convert into back).decode := by
  apply (forward.andThen fun value => forward_ok (back value)).congr
  intro bytes
  simp only [convert]
  cases codec.decode bytes <;> rfl

/-- Where bytes of a restored value are missing, the reader finds that the bytes end. -/
theorem decode_of_cut (forward : Forward codec.decode) (value : α)
    (restores : codec.Restores value) (front back : List UInt8)
    (cut : codec.encode value = front ++ back) (missing : back ≠ []) :
    codec.decode front = .error .ends := by
  have whole := restores []
  rw [List.append_nil, cut] at whole
  have step := forward front back
  rw [whole] at step
  generalize codec.decode front = outcome at step
  generalize nothing : [] = left at step
  cases step with
  | read value rest =>
    exact False.elim (missing (List.append_eq_nil_iff.mp nothing.symm).2)
  | ended => rfl

end

/-- A net is read forward. -/
theorem forward_net : Forward net.decode := by
  have entry : Forward extensionAttribute.decode :=
    forward_convert (forward_pair forward_text (forward_pair forward_text forward_text)) _ _
  have extension : Forward extension.decode :=
    forward_convert (forward_pair forward_text (forward_pair forward_text (forward_pair forward_text
      (forward_pair (forward_option forward_text) (forward_list entry))))) _ _
  have element : Forward element.decode :=
    forward_convert (forward_pair forward_text (forward_pair forward_elementKind
      (forward_pair (forward_option forward_text) (forward_pair (forward_option forward_text)
        (forward_pair (forward_option forward_text) (forward_list extension)))))) _ _
  have flow : Forward flow.decode :=
    forward_convert (forward_pair (forward_option forward_text) (forward_pair forward_text
      (forward_pair forward_text (forward_pair (forward_option forward_text) forward_bool)))) _ _
  exact forward_convert (forward_pair forward_text (forward_pair (forward_option forward_text)
    (forward_pair forward_bool (forward_pair (forward_list element) (forward_list flow))))) _ _

/-- An artifact is read forward. -/
theorem forward_artifact : Forward artifact.decode :=
  forward_convert (forward_pair (forward_decodeNumber 4) forward_net) _ _

end Codec

/-- Of the bytes of an artifact, every part in front that is not the whole is refused because
the bytes end, also when it comes from a file. The version is a number of four bytes, and the
bytes of the artifact can be counted in eight, as those of anything in memory. -/
theorem artifact_truncated (artifact : Artifact) (word : artifact.version < 4294967296)
    (counted : artifact.toBytes.length < Codec.countLimit) (front : List UInt8)
    (cut : front <+: artifact.toBytes) (proper : front ≠ artifact.toBytes) :
    Artifact.ofBytes front = .error (.undecodable .ends) ∧
      ∀ path, Artifact.loaded path (.bytes front) = .error (.undecodable .ends) := by
  obtain ⟨back, whole⟩ := cut
  have missing : back ≠ [] := by
    rintro rfl
    rw [List.append_nil] at whole
    exact proper whole
  have restores := Codec.artifact_restores artifact word counted
  have ended := Codec.decode_of_cut Codec.forward_artifact artifact restores front back whole.symm
    missing
  have refused : Artifact.ofBytes front = .error (.undecodable .ends) := by
    simp only [Artifact.ofBytes, ended]
  exact ⟨refused, fun _ => refused⟩

/-- The stored net with annotations is refused when its last byte is missing, which is a truth
value, and when nothing is left of it. -/
theorem artifact_truncated_annotatedNet :
    (artifactVersion < 4294967296 ∧
      (Artifact.ofNet annotatedNet).toBytes.length < Codec.countLimit) ∧
    ((Artifact.ofNet annotatedNet).toBytes.dropLast <+: (Artifact.ofNet annotatedNet).toBytes ∧
      (Artifact.ofNet annotatedNet).toBytes.dropLast ≠ (Artifact.ofNet annotatedNet).toBytes ∧
      Artifact.ofBytes (Artifact.ofNet annotatedNet).toBytes.dropLast =
        .error (.undecodable .ends)) ∧
    [] <+: (Artifact.ofNet annotatedNet).toBytes ∧ [] ≠ (Artifact.ofNet annotatedNet).toBytes ∧
      Artifact.ofBytes [] = .error (.undecodable .ends) := by
  have counted : (Artifact.ofNet annotatedNet).toBytes.length < Codec.countLimit := by
    decide +kernel
  have cut := List.dropLast_prefix (Artifact.ofNet annotatedNet).toBytes
  have proper : (Artifact.ofNet annotatedNet).toBytes.dropLast ≠
      (Artifact.ofNet annotatedNet).toBytes := by decide +kernel
  have filled : [] ≠ (Artifact.ofNet annotatedNet).toBytes := by decide +kernel
  refine ⟨⟨by decide, counted⟩, ⟨cut, proper, ?_⟩, List.nil_prefix, filled, ?_⟩
  · exact (artifact_truncated (Artifact.ofNet annotatedNet) (by decide) counted _ cut proper).1
  · exact (artifact_truncated (Artifact.ofNet annotatedNet) (by decide) counted []
      List.nil_prefix filled).1

end Workflow
