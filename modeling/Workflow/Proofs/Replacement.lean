import Workflow.Json.Read
import Workflow.Proofs.Changes

/-!
# Replacing a part of a document

Two drafts may be the same but for one part: a member of a table, an item of a list, or the value of
a field of a record in either of its forms. If both parts are read with results that agree, so are
the drafts, and if the part is refused, so is the draft around it. What comes out of agreeing drafts
are members with the same keys, whose values are alike; which values are alike may depend on the
key.
-/

namespace Workflow.Json

/-- Items and the same items with the one at a position replaced. -/
inductive DraftItems.Replaced (part other : Draft) : Nat → DraftItems → DraftItems → Prop
  | here (rest : DraftItems) : Replaced part other 0 (.cons part rest) (.cons other rest)
  | later (position : Nat) (item : Draft) (rest others : DraftItems)
      (below : Replaced part other position rest others) :
      Replaced part other (position + 1) (.cons item rest) (.cons item others)

/-- Members and the same members with the value under a key replaced. -/
inductive DraftMembers.Replaced (part other : Draft) (name : String) :
    DraftMembers → DraftMembers → Prop
  | here (key : Spelling) (rest : DraftMembers) (named : key.string = .ok name) :
      Replaced part other name (.cons key part rest) (.cons key other rest)
  | later (key : Spelling) (value : Draft) (rest others : DraftMembers)
      (below : Replaced part other name rest others) :
      Replaced part other name (.cons key value rest) (.cons key value others)

/-- A record in either form and the same record with the value of a field replaced. -/
inductive Record.Replaced {ρ : Type} (record : Record ρ) (field : RecordField ρ)
    (part other : Draft) : Draft → Draft → Prop
  | object (members others : DraftMembers) (known : record.field? field.key = some field)
      (below : DraftMembers.Replaced part other field.key members others) :
      Replaced record field part other (.object members) (.object others)
  | array (items others : DraftItems) (position : Nat)
      (known : record.fields[position]? = some field)
      (below : DraftItems.Replaced part other position items others) :
      Replaced record field part other (.array items) (.array others)

/-- Replacing an item can be taken back. -/
theorem DraftItems.Replaced.symm {part other : Draft} {position : Nat} {items others : DraftItems}
    (place : Replaced part other position items others) :
    Replaced other part position others items := by
  induction place with
  | here rest => exact .here rest
  | later position item rest others _ inductionHypothesis =>
    exact .later position item others rest inductionHypothesis

/-- Replacing the value of a member can be taken back. -/
theorem DraftMembers.Replaced.symm {part other : Draft} {title : String}
    {members others : DraftMembers} (place : Replaced part other title members others) :
    Replaced other part title others members := by
  induction place with
  | here key rest named => exact .here key rest named
  | later key value rest others _ inductionHypothesis =>
    exact .later key value others rest inductionHypothesis

/-- Replacing the value of a field can be taken back. -/
theorem Record.Replaced.symm {ρ : Type} {record : Record ρ} {field : RecordField ρ}
    {part other whole image : Draft} (place : record.Replaced field part other whole image) :
    record.Replaced field other part image whole := by
  cases place with
  | object members others known below => exact .object others members known below.symm
  | array items others position known below => exact .array others items position known below.symm

/-- Induction along the items of an array. -/
theorem DraftItems.chain {motive : DraftItems → Prop} (closed : motive .closed) (cut : motive .cut)
    (noComma : motive .noComma) (commaAtEnd : motive .commaAtEnd)
    (cons : ∀ item rest, motive rest → motive (.cons item rest)) : ∀ items, motive items
  | .closed => closed
  | .cut => cut
  | .noComma => noComma
  | .commaAtEnd => commaAtEnd
  | .cons item rest => cons item rest (chain closed cut noComma commaAtEnd cons rest)

/-- Induction along the members of an object. -/
theorem DraftMembers.chain {motive : DraftMembers → Prop} (closed : motive .closed)
    (cut : motive .cut) (cutAfterComma : motive .cutAfterComma) (noComma : motive .noComma)
    (commaAtEnd : motive .commaAtEnd) (stray : ∀ found, motive (.stray found))
    (cons : ∀ key value rest, motive rest → motive (.cons key value rest)) :
    ∀ members, motive members
  | .closed => closed
  | .cut => cut
  | .cutAfterComma => cutAfterComma
  | .noComma => noComma
  | .commaAtEnd => commaAtEnd
  | .stray found => stray found
  | .cons key value rest =>
      cons key value rest (chain closed cut cutAfterComma noComma commaAtEnd stray cons rest)

section

/-- Members with the same keys, in the same order, and with values that are alike. -/
def MembersAlike (alike : String → Value → Value → Prop) :
    List (String × Value) → List (String × Value) → Prop :=
  List.Forall₂ fun member other => other.1 = member.1 ∧ alike member.1 member.2 other.2

variable {alike : String → Value → Value → Prop} (same : ∀ key value, alike key value value)

/-- Members that are alike have the same keys. -/
theorem MembersAlike.keys {members others : List (String × Value)}
    (members_alike : MembersAlike alike members others) :
    others.map (·.1) = members.map (·.1) := by
  induction members_alike with
  | nil => rfl
  | cons first _ inductionHypothesis =>
    rw [List.map_cons, List.map_cons, first.1, inductionHypothesis]

/-- What is read from the value found under a key is the same among members that are alike, if it is
the same for values that are alike. -/
theorem MembersAlike.read_lookup {β : Type} {members others : List (String × Value)}
    (members_alike : MembersAlike alike members others) (key : String) (read : Option Value → β)
    (values : ∀ value other, alike key value other → read (some other) = read (some value)) :
    read (others.lookup key) = read (members.lookup key) := by
  induction members_alike with
  | nil => rfl
  | @cons member other _ _ first _ inductionHypothesis =>
    rw [List.lookup_cons, List.lookup_cons, first.1]
    by_cases found : key = member.1
    · subst found
      simpa using values _ _ first.2
    · have missed : (key == member.1) = false := by simpa using found
      rwa [missed]

/-- A key is found among members exactly if it is found among others that are alike. -/
theorem MembersAlike.isSome_lookup {members others : List (String × Value)}
    (members_alike : MembersAlike alike members others) (key : String) :
    (others.lookup key).isSome = (members.lookup key).isSome :=
  members_alike.read_lookup key Option.isSome fun _ _ _ => rfl

/-- Members that are alike still are when values that are alike are put under the same key. -/
theorem MembersAlike.insertMember {members others : List (String × Value)}
    (members_alike : MembersAlike alike members others) (key : String) (value other : Value)
    (values : alike key value other) :
    MembersAlike alike (Json.insertMember key value members)
      (Json.insertMember key other others) := by
  induction members_alike with
  | nil => exact List.Forall₂.cons ⟨rfl, values⟩ List.Forall₂.nil
  | @cons member image rest images first behind inductionHypothesis =>
    obtain ⟨name, held⟩ := member
    obtain ⟨_, holds⟩ := image
    obtain ⟨rfl, heldAlike⟩ := first
    simp only [Json.insertMember]
    split
    · exact List.Forall₂.cons ⟨rfl, values⟩ (List.Forall₂.cons ⟨rfl, heldAlike⟩ behind)
    · split
      · exact List.Forall₂.cons ⟨rfl, values⟩ behind
      · exact List.Forall₂.cons ⟨rfl, heldAlike⟩ inductionHypothesis

variable {ρ : Type} (schema : Schema ρ) (record : Record ρ)

/-- A record is complete exactly if one with members that are alike is. -/
theorem complete_agree {given others : List (String × Value)}
    (given_alike : MembersAlike alike given others) :
    Agree id (MembersAlike alike) (record.complete given) (record.complete others) := by
  simp only [Record.complete, given_alike.keys]
  split
  · rfl
  · exact given_alike

include same

/-- The remaining items of a record in array form are read whatever values the fields before them
have. -/
theorem readRecord_items_agree (items : DraftItems) (fields : List (RecordField ρ))
    {given others : List (String × Value)} (given_alike : MembersAlike alike given others) :
    Agree id (MembersAlike alike) (items.readRecord schema record fields given)
      (items.readRecord schema record fields others) := by
  induction items using DraftItems.chain generalizing fields given others with
  | closed =>
    cases fields with
    | nil => exact given_alike
    | cons field fields =>
      simp only [DraftItems.readRecord, given_alike.length_eq]
      split
      · exact given_alike
      · rfl
  | cut | noComma | commaAtEnd =>
    cases fields with
    | nil => rfl
    | cons field fields => rfl
  | cons item rest inductionHypothesis =>
    cases fields with
    | nil => rfl
    | cons field fields =>
      simp only [DraftItems.readRecord]
      apply agree_after
      intro value
      exact inductionHypothesis fields (List.Forall₂.cons ⟨rfl, same field.key value⟩ given_alike)

/-- The remaining members of a record in object form are read whatever values the fields before them
have. -/
theorem readRecord_members_agree (members : DraftMembers)
    {given others : List (String × Value)} (given_alike : MembersAlike alike given others) :
    Agree id (MembersAlike alike) (members.readRecord schema record given)
      (members.readRecord schema record others) := by
  induction members using DraftMembers.chain generalizing given others with
  | closed => exact complete_agree record given_alike
  | cut | cutAfterComma | noComma | commaAtEnd => rfl
  | stray found => rfl
  | cons key value rest inductionHypothesis =>
    simp only [DraftMembers.readRecord, given_alike.isSome_lookup]
    apply agree_after
    intro name
    split
    · apply agree_after
      intro _
      exact inductionHypothesis given_alike
    · split
      · rfl
      · apply agree_after
        intro held
        exact inductionHypothesis (List.Forall₂.cons ⟨rfl, same name held⟩ given_alike)

/-- The remaining members of a table are read whatever values those before them have. -/
theorem readTable_agree (members : DraftMembers) {before others : List (String × Value)}
    (before_alike : MembersAlike alike before others) :
    Agree id (MembersAlike alike) (members.readTable schema .any before)
      (members.readTable schema .any others) := by
  induction members using DraftMembers.chain generalizing before others with
  | closed => exact before_alike
  | cut | cutAfterComma | noComma | commaAtEnd => rfl
  | stray found => rfl
  | cons key value rest inductionHypothesis =>
    simp only [DraftMembers.readTable]
    apply agree_after
    intro name
    apply agree_after
    intro held
    exact inductionHypothesis (before_alike.insertMember name held held (same name held))

variable {part other : Draft}

/-- A table in which a value is replaced by one that is read alike is read alike. -/
theorem readTable_replaced (name : String) (members others : DraftMembers)
    (replaced : DraftMembers.Replaced part other name members others)
    (parts : Agree id (alike name) part.keep other.keep) {before image : List (String × Value)}
    (before_alike : MembersAlike alike before image) :
    Agree id (MembersAlike alike) (members.readTable schema .any before)
      (others.readTable schema .any image) := by
  induction replaced generalizing before image with
  | here key rest named =>
    simp only [DraftMembers.readTable, Draft.read, named]
    apply parts.bind
    intro value other values
    exact readTable_agree same schema rest (before_alike.insertMember name value other values)
  | later key value rest others _ inductionHypothesis =>
    simp only [DraftMembers.readTable]
    apply agree_after
    intro name
    apply agree_after
    intro held
    exact inductionHypothesis (before_alike.insertMember name held held (same name held))

variable {record} {field : RecordField ρ} (filled : part.isNull = false)
  (filledOther : other.isNull = false)
include filled filledOther

/-- The items of a record in array form are read alike if the one of a field is replaced by one that
is read alike. -/
theorem readRecord_items_replaced (position : Nat) (items others : DraftItems)
    (replaced : DraftItems.Replaced part other position items others)
    (parts : Agree id (alike field.key) (part.read schema field.shape)
      (other.read schema field.shape))
    (fields : List (RecordField ρ)) (known : fields[position]? = some field)
    {given image : List (String × Value)} (given_alike : MembersAlike alike given image) :
    Agree id (MembersAlike alike) (items.readRecord schema record fields given)
      (others.readRecord schema record fields image) := by
  induction replaced generalizing fields given image with
  | here rest =>
    cases fields with
    | nil => cases known
    | cons first fields =>
      obtain rfl : first = field := Option.some.inj known
      simp only [DraftItems.readRecord, filled, filledOther, Bool.and_false, Bool.false_eq_true,
        if_false]
      apply parts.bind
      intro value other values
      exact readRecord_items_agree same schema record rest fields
        (List.Forall₂.cons ⟨rfl, values⟩ given_alike)
  | later position item rest others _ inductionHypothesis =>
    cases fields with
    | nil => cases known
    | cons first fields =>
      simp only [DraftItems.readRecord]
      apply agree_after
      intro value
      exact inductionHypothesis fields known
        (List.Forall₂.cons ⟨rfl, same first.key value⟩ given_alike)

/-- The members of a record in object form are read alike if the value of a field is replaced by one
that is read alike. -/
theorem readRecord_members_replaced (members others : DraftMembers)
    (replaced : DraftMembers.Replaced part other field.key members others)
    (parts : Agree id (alike field.key) (part.read schema field.shape)
      (other.read schema field.shape))
    (known : record.field? field.key = some field)
    {given image : List (String × Value)} (given_alike : MembersAlike alike given image) :
    Agree id (MembersAlike alike) (members.readRecord schema record given)
      (others.readRecord schema record image) := by
  induction replaced generalizing given image with
  | here key rest named =>
    simp only [DraftMembers.readRecord, named, bind, Except.bind, known,
      given_alike.isSome_lookup, filled, filledOther, Bool.and_false, Bool.false_eq_true, if_false]
    split
    · rfl
    · apply parts.bind
      intro value other values
      exact readRecord_members_agree same schema record rest
        (List.Forall₂.cons ⟨rfl, values⟩ given_alike)
  | later key value rest others _ inductionHypothesis =>
    simp only [DraftMembers.readRecord, given_alike.isSome_lookup]
    apply agree_after
    intro name
    split
    · apply agree_after
      intro _
      exact inductionHypothesis given_alike
    · split
      · rfl
      · apply agree_after
        intro held
        exact inductionHypothesis (List.Forall₂.cons ⟨rfl, same name held⟩ given_alike)

/-- Two objects with members that are alike. -/
def ObjectsAlike (alike : String → Value → Value → Prop) (value other : Value) : Prop :=
  ∃ members others, value = .object members ∧ other = .object others ∧
    MembersAlike alike members others

/-- A record is read alike if the value of a field is replaced by one that is read alike. -/
theorem read_record_replaced (name : ρ) (whole wholeOther : Draft)
    (replaced : (schema name).Replaced field part other whole wholeOther)
    (parts : Agree id (alike field.key) (part.read schema field.shape)
      (other.read schema field.shape)) :
    Agree id (ObjectsAlike alike) (whole.read schema (.record name))
      (wholeOther.read schema (.record name)) := by
  have objects (members others : List (String × Value))
      (members_alike : MembersAlike alike members others) :
      ObjectsAlike alike (.object members) (.object others) :=
    ⟨members, others, rfl, rfl, members_alike⟩
  cases replaced with
  | object members others known below =>
    simp only [Draft.read]
    exact (readRecord_members_replaced same schema filled filledOther members others below parts
      known List.Forall₂.nil).map objects
  | array items others position known below =>
    simp only [Draft.read]
    exact (readRecord_items_replaced same schema filled filledOther position items others below
      parts _ known List.Forall₂.nil).map objects

end

section

variable {ρ : Type} (schema : Schema ρ) {part other : Draft} {related : Value → Value → Prop}

/-- A list is read alike if an item is replaced by one that is read alike. -/
theorem read_items_replaced (same : ∀ value, related value value) (shape : Shape ρ)
    (position : Nat) (items others : DraftItems)
    (replaced : DraftItems.Replaced part other position items others)
    (parts : Agree id related (part.read schema shape) (other.read schema shape)) :
    Agree id (List.Forall₂ related) (items.read schema shape) (others.read schema shape) := by
  have itself : ∀ values, List.Forall₂ related values values := by
    intro values
    exact List.forall₂_same.mpr fun value _ => same value
  induction replaced with
  | here rest =>
    simp only [DraftItems.read]
    apply parts.bind
    intro value other values
    apply agree_after
    intro held
    exact List.Forall₂.cons values (itself held)
  | later position item rest others _ inductionHypothesis =>
    simp only [DraftItems.read]
    apply agree_after
    intro value
    apply inductionHypothesis.bind
    intro held image values
    exact List.Forall₂.cons (same value) values

end

/-- A result that is no value. -/
def Refused {ε α : Type} (result : Except ε α) : Prop := ∃ fault, result = .error fault

/-- Nothing comes after a refusal. -/
theorem Refused.bind {ε α β : Type} {result : Except ε α} (refused : Refused result)
    (next : α → Except ε β) : Refused (result >>= next) := by
  obtain ⟨fault, rfl⟩ := refused
  exact ⟨fault, rfl⟩

/-- What is refused in any case is refused after whatever comes before it. -/
theorem refused_after {ε α β : Type} (result : Except ε α) (next : α → Except ε β)
    (refused : ∀ value, Refused (next value)) : Refused (result >>= next) := by
  cases result with
  | error fault => exact ⟨fault, rfl⟩
  | ok value => exact refused value

section

variable {ρ : Type} (schema : Schema ρ) {part other : Draft}

/-- A table is refused if a value in it is. -/
theorem readTable_refused (name : String) (members others : DraftMembers)
    (replaced : DraftMembers.Replaced part other name members others)
    (refused : Refused part.keep) (before : List (String × Value)) :
    Refused (members.readTable schema .any before) := by
  induction replaced generalizing before with
  | here key rest named =>
    simp only [DraftMembers.readTable, Draft.read]
    exact refused_after _ _ fun name => refused.bind _
  | later key value rest others _ inductionHypothesis =>
    simp only [DraftMembers.readTable]
    exact refused_after _ _ fun name => refused_after _ _ fun held => inductionHypothesis _

/-- A list is refused if an item in it is. -/
theorem read_items_refused (shape : Shape ρ) (position : Nat) (items others : DraftItems)
    (replaced : DraftItems.Replaced part other position items others)
    (refused : Refused (part.read schema shape)) : Refused (items.read schema shape) := by
  induction replaced with
  | here rest =>
    simp only [DraftItems.read]
    exact refused.bind _
  | later position item rest others _ inductionHypothesis =>
    simp only [DraftItems.read]
    exact refused_after _ _ fun value => inductionHypothesis.bind _

variable {field : RecordField ρ} (filled : part.isNull = false)
  (refused : Refused (part.read schema field.shape))
include filled refused

/-- A record in object form is refused if the value of a field is. -/
theorem readRecord_members_refused (record : Record ρ) (members others : DraftMembers)
    (replaced : DraftMembers.Replaced part other field.key members others)
    (known : record.field? field.key = some field) (given : List (String × Value)) :
    Refused (members.readRecord schema record given) := by
  induction replaced generalizing given with
  | here key rest named =>
    simp only [DraftMembers.readRecord, named, bind, Except.bind, known, filled, Bool.and_false,
      Bool.false_eq_true, if_false]
    split
    · exact ⟨_, rfl⟩
    · exact refused.bind _
  | later key value rest others _ inductionHypothesis =>
    simp only [DraftMembers.readRecord]
    apply refused_after
    intro name
    split
    · exact refused_after _ _ fun _ => inductionHypothesis _
    · split
      · exact ⟨_, rfl⟩
      · exact refused_after _ _ fun held => inductionHypothesis _

/-- A record in array form is refused if the item of a field is. -/
theorem readRecord_items_refused (record : Record ρ) (position : Nat) (items others : DraftItems)
    (replaced : DraftItems.Replaced part other position items others)
    (fields : List (RecordField ρ)) (known : fields[position]? = some field)
    (given : List (String × Value)) :
    Refused (items.readRecord schema record fields given) := by
  induction replaced generalizing fields given with
  | here rest =>
    cases fields with
    | nil => cases known
    | cons first fields =>
      obtain rfl : first = field := Option.some.inj known
      simp only [DraftItems.readRecord, filled, Bool.and_false, Bool.false_eq_true, if_false]
      exact refused.bind _
  | later position item rest others _ inductionHypothesis =>
    cases fields with
    | nil => cases known
    | cons first fields =>
      simp only [DraftItems.readRecord]
      exact refused_after _ _ fun value => inductionHypothesis fields known _

/-- A record is refused if the value of a field is. -/
theorem read_record_refused (name : ρ) (whole wholeOther : Draft)
    (replaced : (schema name).Replaced field part other whole wholeOther) :
    Refused (whole.read schema (.record name)) := by
  cases replaced with
  | object members others known below =>
    simp only [Draft.read]
    exact (readRecord_members_refused schema filled refused _ members others below known []).bind _
  | array items others position known below =>
    simp only [Draft.read]
    exact (readRecord_items_refused schema filled refused _ position items others below _ known
      []).bind _

end

end Workflow.Json
