import Mathlib.Data.List.Forall2
import FetchQuery.Outcome

/-!
# Lists of outcomes

What is done to each item of a list is stated item by item (`List.Forall₂`): the values
that come of the items, and items of two lists that have the same outcome. The fault of a chain
is the first one of its parts.
-/

namespace FetchQuery

namespace Outcome

variable {ε α β : Type}

/-- The faults of a chain are changed by changing those of its parts. -/
theorem mapError_bind {ε' : Type} {f : ε → ε'} {outcome : Except ε α} {next : α → Except ε β} :
    (outcome >>= next).mapError f =
      outcome.mapError f >>= fun value => (next value).mapError f := by
  cases outcome with
  | error fault => rfl
  | ok value => rfl

/-- A chain has the fault of its first part, or that of what follows. -/
theorem bind_eq_error_iff {outcome : Except ε α} {next : α → Except ε β} {fault : ε} :
    (outcome >>= next) = .error fault ↔
      outcome = .error fault ∨ ∃ value, outcome = .ok value ∧ next value = .error fault := by
  cases outcome with
  | error given =>
      constructor
      · intro h
        exact .inl (congrArg Except.error (Except.error.inj h))
      · rintro (h | ⟨value, same, -⟩)
        · exact congrArg Except.error (Except.error.inj h)
        · exact nomatch same
  | ok value =>
      constructor
      · intro h
        exact .inr ⟨value, rfl, h⟩
      · rintro (h | ⟨value', same, h⟩)
        · exact nomatch h
        · cases same
          exact h

theorem mapError_eq_error_iff {ε' : Type} {f : ε → ε'} {outcome : Except ε α} {fault : ε'} :
    outcome.mapError f = .error fault ↔ ∃ given, outcome = .error given ∧ f given = fault := by
  cases outcome with
  | error given => simp [Except.mapError]
  | ok value => simp [Except.mapError]

theorem toOption_eq_some_iff {outcome : Except ε α} {value : α} :
    outcome.toOption = some value ↔ outcome = .ok value := by
  cases outcome with
  | error fault => simp [Except.toOption]
  | ok value => simp [Except.toOption]

/-- A list of outcomes has values when each of them has one. -/
theorem mapM_eq_ok_iff {f : α → Except ε β} {items : List α} {values : List β} :
    items.mapM f = .ok values ↔
      List.Forall₂ (fun item value => f item = .ok value) items values := by
  induction items generalizing values with
  | nil =>
      rw [List.mapM_nil, List.forall₂_nil_left_iff]
      exact ⟨fun h => (Except.ok.inj h).symm, fun h => congrArg Except.ok h.symm⟩
  | cons item items ih =>
      rw [List.mapM_cons, List.forall₂_cons_left_iff, bind_eq_ok_iff]
      constructor
      · rintro ⟨value, hvalue, h⟩
        obtain ⟨more, hmore, h⟩ := bind_eq_ok_iff.mp h
        exact ⟨value, more, hvalue, ih.mp hmore, (Except.ok.inj h).symm⟩
      · rintro ⟨value, more, hvalue, hmore, rfl⟩
        exact ⟨value, hvalue, bind_eq_ok_iff.mpr ⟨more, ih.mpr hmore, rfl⟩⟩

/-- A list with a fault has it at one of its items, behind items without one. -/
theorem exists_of_foldlM_eq_error {f : β → α → Except ε β} {items : List α} {start : β} {fault : ε}
    (h : items.foldlM f start = .error fault) :
    ∃ before item after middle, items = before ++ item :: after ∧
      before.foldlM f start = .ok middle ∧ f middle item = .error fault := by
  induction items generalizing start with
  | nil => cases h
  | cons item items ih =>
      rcases bind_eq_error_iff.mp h with here | ⟨next, step, later⟩
      · exact ⟨[], item, items, start, rfl, rfl, here⟩
      · obtain ⟨before, item', after, middle, rfl, read, wrong⟩ := ih later
        refine ⟨item :: before, item', after, middle, rfl, ?_, wrong⟩
        rw [List.foldlM_cons, step]
        exact read

/-- Each value comes from one of the items. -/
theorem exists_of_mem_forall₂ {R : α → β → Prop} {items : List α} {values : List β}
    {value : β} (h : List.Forall₂ R items values) (present : value ∈ values) :
    ∃ item ∈ items, R item value := by
  induction h with
  | nil => exact nomatch present
  | @cons item _ _ _ first _ ih =>
      rcases List.mem_cons.mp present with rfl | later
      · exact ⟨item, List.mem_cons_self, first⟩
      · obtain ⟨item, hitem, related⟩ := ih later
        exact ⟨item, List.mem_cons_of_mem _ hitem, related⟩

/-- Lists that are related one by one have the same image under a function that cannot tell
related items apart. -/
theorem map_eq_map_of_forall₂ {R : α → α → Prop} {f : α → β} {first second : List α}
    (h : List.Forall₂ R first second) (same : ∀ a b, R a b → f a = f b) :
    first.map f = second.map f := by
  rw [← List.forall₂_eq_eq_eq, List.forall₂_map_left_iff, List.forall₂_map_right_iff]
  exact h.imp same

/-- Lists that are related one by one to the same list are related one by one. -/
theorem forall₂_comp {γ : Type} {R : α → β → Prop} {S : β → γ → Prop} {T : α → γ → Prop}
    {items : List α} {middle : List β} {values : List γ} (first : List.Forall₂ R items middle)
    (second : List.Forall₂ S middle values)
    (step : ∀ item, ∀ part ∈ middle, ∀ value, R item part → S part value → T item value) :
    List.Forall₂ T items values := by
  induction first generalizing values with
  | nil =>
      cases second
      exact .nil
  | cons related _ ih =>
      cases second with
      | cons related' second =>
        refine .cons (step _ _ List.mem_cons_self _ related related') (ih second ?_)
        intro item part present
        exact step item part (List.mem_cons_of_mem _ present)

/-- Lists that are related one by one have the same parts in some order, if related items do. -/
theorem perm_flatMap_of_forall₂ {γ : Type} {R : α → β → Prop} {f : α → List γ} {g : β → List γ}
    {items : List α} {values : List β} (h : List.Forall₂ R items values)
    (same : ∀ item ∈ items, ∀ value, R item value → (f item).Perm (g value)) :
    (items.flatMap f).Perm (values.flatMap g) := by
  induction h with
  | nil => exact .nil
  | cons related _ ih =>
      rw [List.forall_mem_cons] at same
      rw [List.flatMap_cons, List.flatMap_cons]
      exact (same.1 _ related).append (ih same.2)

theorem mapM_eq_mapM_of_forall₂ {R : α → α → Prop} {f : α → Except ε β}
    {first second : List α} (h : List.Forall₂ R first second) (same : ∀ a b, R a b → f a = f b) :
    first.mapM f = second.mapM f := by
  have images := congrArg (List.mapM id) (map_eq_map_of_forall₂ h same)
  simpa only [List.mapM_map, Function.id_comp] using images

/-! ### The fault of a chain -/

/-- The fault of an outcome, if it has one. -/
def fault? : Except ε α → Option ε
  | .ok _ => none
  | .error fault => some fault

theorem fault?_eq_none_iff {outcome : Except ε α} :
    fault? outcome = none ↔ ∃ value, outcome = .ok value := by
  cases outcome with
  | error fault => simp [fault?]
  | ok value => simp [fault?]

theorem fault?_eq_some_iff {outcome : Except ε α} {fault : ε} :
    fault? outcome = some fault ↔ outcome = .error fault := by
  cases outcome with
  | error given => simp [fault?]
  | ok value => simp [fault?]

/-- A chain whose later fault depends on no value has its first fault. -/
theorem fault?_bind {outcome : Except ε α} {next : α → Except ε β} {later : Option ε}
    (h : ∀ value, fault? (next value) = later) :
    fault? (outcome >>= next) = (fault? outcome).or later := by
  cases outcome with
  | error fault => rfl
  | ok value => exact h value

theorem fault?_bind_pure {outcome : Except ε α} {f : α → β} :
    fault? (outcome >>= fun value => pure (f value)) = fault? outcome := by
  cases outcome with
  | error fault => rfl
  | ok value => rfl

/-- A list of outcomes has the first fault among them. -/
theorem fault?_mapM {f : α → Except ε β} {items : List α} :
    fault? (items.mapM f) = items.findSome? fun item => fault? (f item) := by
  induction items with
  | nil => rfl
  | cons item items ih =>
      rw [List.mapM_cons, fault?_bind fun value => fault?_bind_pure, ih, List.findSome?_cons]
      cases fault? (f item) with
      | none => rfl
      | some fault => rfl

end Outcome

end FetchQuery
