import Mathlib.Data.List.Forall2

/-!
# Lists examined in order

A check may look at an item and at the items before it, and it either refuses the
item or turns it into something. `examine` checks the items of a list from the front
and stops at the first refusal. If a relation says when an item is refused and how,
then `examine_error_iff` says that the list is refused exactly like its first
refused item, and `faultless_iff` that a list has no such item exactly if no item is
faulty behind those before it.
-/

namespace Workflow.InOrder

universe u v w
variable {α : Type u} {β : Type v} {ε : Type w}

/-- Check items from the front. The check sees the items before the one it checks. -/
def examine (check : List α → α → Except ε β) : List α → Except ε (List β)
  | [] => .ok []
  | item :: rest =>
      match check [] item with
      | .error fault => .error fault
      | .ok result => (examine (fun before => check (item :: before)) rest).map (result :: ·)

/-- No item of a list is faulty behind the items before it. -/
def Faultless (faulty : List α → α → ε → Prop) (items : List α) : Prop :=
  ∀ before item after fault, items = before ++ item :: after → ¬ faulty before item fault

/-- The fault of the first faulty item of a list. -/
def FirstFault (faulty : List α → α → ε → Prop) (items : List α) (fault : ε) : Prop :=
  ∃ before item after, items = before ++ item :: after ∧
    Faultless faulty before ∧ faulty before item fault

/-- An empty list has no faulty item. -/
theorem faultless_nil (faulty : List α → α → ε → Prop) : Faultless faulty [] := by
  intro before item after fault split
  simp at split

/-- A list is faultless if its first item is, and its rest behind that item. -/
theorem faultless_cons_iff (faulty : List α → α → ε → Prop) (item : α) (rest : List α) :
    Faultless faulty (item :: rest) ↔
      (∀ fault, ¬ faulty [] item fault) ∧
        Faultless (fun before => faulty (item :: before)) rest := by
  constructor
  · intro faultless
    refine ⟨fun fault => faultless [] item rest fault rfl, ?_⟩
    intro before later after fault split
    exact faultless (item :: before) later after fault (by rw [split, List.cons_append])
  · rintro ⟨first, others⟩ before later after fault split
    rcases List.cons_eq_append_iff.mp split with ⟨rfl, same⟩ | ⟨between, rfl, same⟩
    · obtain ⟨rfl, _⟩ := List.cons.inj same
      exact first fault
    · exact others between later after fault same

/-- An empty list has no first fault. -/
theorem not_firstFault_nil (faulty : List α → α → ε → Prop) (fault : ε) :
    ¬ FirstFault faulty [] fault := by
  rintro ⟨before, item, after, split, _⟩
  simp at split

/-- The first fault is that of the first item, or that of the rest behind it if the
first item is not faulty. -/
theorem firstFault_cons_iff (faulty : List α → α → ε → Prop) (item : α) (rest : List α)
    (fault : ε) :
    FirstFault faulty (item :: rest) fault ↔
      faulty [] item fault ∨
        ((∀ fault, ¬ faulty [] item fault) ∧
          FirstFault (fun before => faulty (item :: before)) rest fault) := by
  constructor
  · rintro ⟨before, later, after, split, faultless, found⟩
    rcases List.cons_eq_append_iff.mp split with ⟨rfl, same⟩ | ⟨between, rfl, same⟩
    · obtain ⟨rfl, _⟩ := List.cons.inj same
      exact Or.inl found
    · obtain ⟨first, others⟩ := (faultless_cons_iff faulty item between).mp faultless
      exact Or.inr ⟨first, between, later, after, same, others, found⟩
  · rintro (found | ⟨first, between, later, after, split, faultless, found⟩)
    · exact ⟨[], item, rest, rfl, faultless_nil faulty, found⟩
    · refine ⟨item :: between, later, after, by rw [split, List.cons_append], ?_, found⟩
      exact (faultless_cons_iff faulty item between).mpr ⟨first, faultless⟩

/-- Some item is the first faulty one unless no item is faulty. -/
theorem faultless_iff (faulty : List α → α → ε → Prop) (items : List α) :
    Faultless faulty items ↔ ∀ fault, ¬ FirstFault faulty items fault := by
  induction items generalizing faulty with
  | nil => simp [faultless_nil, not_firstFault_nil]
  | cons item rest inductionHypothesis =>
    simp only [faultless_cons_iff, firstFault_cons_iff, inductionHypothesis, not_or, not_and]
    constructor
    · rintro ⟨first, others⟩ fault
      exact ⟨first fault, fun _ => others fault⟩
    · intro clean
      have first (fault : ε) := (clean fault).1
      refine ⟨first, ?_⟩
      intro fault
      exact (clean fault).2 first

/-- If the items before an item play no part, a list is faultless exactly if each of its
items is. -/
theorem faultless_const_iff (faulty : α → ε → Prop) (items : List α) :
    Faultless (fun _ => faulty) items ↔ ∀ item ∈ items, ∀ fault, ¬ faulty item fault := by
  constructor
  · intro faultless item member fault
    obtain ⟨before, after, split⟩ := List.append_of_mem member
    exact faultless before item after fault split
  · intro each before item after fault split
    exact each item (by simp [split]) fault

/-- A mapped result is refused exactly if the result is. -/
theorem map_error_iff {γ : Type v} (f : β → γ) (result : Except ε β) (fault : ε) :
    result.map f = .error fault ↔ result = .error fault := by
  cases result <;> simp [Except.map]

/-- A mapped result exists exactly if the result does. -/
theorem map_ok_iff {γ : Type v} (f : β → γ) (result : Except ε β) (value : γ) :
    result.map f = .ok value ↔ ∃ original, result = .ok original ∧ f original = value := by
  cases result <;> simp [Except.map]

/-- A result with a step behind it exists exactly if both do. -/
theorem bind_ok_iff {γ : Type v} (result : Except ε β) (next : β → Except ε γ) (value : γ) :
    result >>= next = .ok value ↔
      ∃ original, result = .ok original ∧ next original = .ok value := by
  cases result <;> simp [bind, Except.bind]

/-- A list is refused exactly as its first faulty item is. -/
theorem examine_error_iff (check : List α → α → Except ε β) (faulty : List α → α → ε → Prop)
    (exact_check : ∀ before item fault, check before item = .error fault ↔ faulty before item fault)
    (items : List α) (fault : ε) :
    examine check items = .error fault ↔ FirstFault faulty items fault := by
  induction items generalizing check faulty with
  | nil => simp [examine, not_firstFault_nil]
  | cons item rest inductionHypothesis =>
    have later := inductionHypothesis (fun before => check (item :: before))
      (fun before => faulty (item :: before)) (fun before => exact_check (item :: before))
    rw [firstFault_cons_iff, ← later]
    cases checked : check [] item with
    | error found =>
      have refused : faulty [] item found := (exact_check [] item found).mp checked
      have only : faulty [] item fault ↔ found = fault := by
        rw [← exact_check [] item fault, checked, Except.error.injEq]
      have never : ¬ ∀ fault, ¬ faulty [] item fault := by
        intro clean
        exact clean found refused
      simp [examine, checked, only, never]
    | ok result =>
      have passed : ∀ fault, ¬ faulty [] item fault := by
        intro other found
        rw [← exact_check [] item other, checked] at found
        cases found
      simp [examine, checked, passed, map_error_iff]

/-- The results of a passed list stand in the order of the items, each the result of
its own check. -/
theorem examine_forall₂ (check : List α → α → Except ε β) (items : List α) (results : List β)
    (passed : examine check items = .ok results) :
    List.Forall₂ (fun item result => ∃ before, check before item = .ok result) items results := by
  induction items generalizing check results with
  | nil =>
    have same : [] = results := by simpa [examine] using passed
    exact same ▸ List.Forall₂.nil
  | cons item rest inductionHypothesis =>
    cases checked : check [] item with
    | error found => simp [examine, checked] at passed
    | ok result =>
      simp only [examine, checked, map_ok_iff] at passed
      obtain ⟨others, rest_passed, rfl⟩ := passed
      have tail := inductionHypothesis (fun before => check (item :: before)) others rest_passed
      refine List.Forall₂.cons ⟨[], checked⟩ (tail.imp ?_)
      rintro later value ⟨before, found⟩
      exact ⟨item :: before, found⟩

end Workflow.InOrder
