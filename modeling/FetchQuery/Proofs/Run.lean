import Mathlib.Data.List.Pairwise

/-!
# Loops that come to an end

A loop goes from state to state until a step gives a result. If each step that goes on uses up a
part of something limited, the loop ends after at most as many states as there is to be used up
(`Consumes.terminates`).
-/

namespace FetchQuery

variable {State Result : Type}

/-- A loop from a state to its result, with the states that it goes on to, in order. -/
inductive Run (step : State → Result ⊕ State) : State → Result → List State → Prop
  | stop {state : State} {result : Result} (h : step state = .inl result) :
      Run step state result []
  | pass {state later : State} {result : Result} {states : List State}
      (h : step state = .inr later) (tail : Run step later result states) :
      Run step state result (later :: states)

/-- States that follow a state, each with more used up than the one before it and none with more
than the limit. So there are at most as many of them. -/
structure Advances (used : State → Nat) (limit : Nat) (start : State) (states : List State) :
    Prop where
  increasing : ((start :: states).map used).Pairwise (· < ·)
  inside : ∀ state ∈ start :: states, used state ≤ limit
  few : states.length ≤ limit

/-- A loop that ends with one result, and whose states advance until then. -/
structure Terminates (step : State → Result ⊕ State) (used : State → Nat) (limit : Nat)
    (start : State) (result : Result) : Prop where
  ends : ∃ states, Run step start result states
  advances : ∀ other states, Run step start other states →
    other = result ∧ Advances used limit start states

/-- Steps that use up at least one of a limited number of things when they go on, and that do not
change what comes of a state. -/
structure Consumes (step : State → Result ⊕ State) (valid : State → Prop) (used : State → Nat)
    (limit : Nat) (outcome : State → Result) : Prop where
  within : ∀ state, valid state → used state ≤ limit
  pass : ∀ state later, valid state → step state = .inr later →
    valid later ∧ used state < used later ∧ outcome later = outcome state
  stop : ∀ state result, step state = .inl result → outcome state = result

namespace Consumes

variable {step : State → Result ⊕ State} {valid : State → Prop} {used : State → Nat}
  {limit : Nat} {outcome : State → Result} {state : State} {result : Result} {states : List State}

/-- The loop ends with what comes of its state. -/
theorem exists_run (h : Consumes step valid used limit outcome) (here : valid state) :
    ∃ states, Run step state (outcome state) states := by
  -- What carries the induction is how much is left to be used up.
  induction left : limit - used state using Nat.strongRecOn generalizing state with
  | _ left' ih =>
    cases next : step state with
    | inl result => exact ⟨[], h.stop state result next ▸ .stop next⟩
    | inr later =>
        obtain ⟨there, more, same⟩ := h.pass state later here next
        have bound := h.within later there
        obtain ⟨states, run⟩ := ih (limit - used later) (by omega) there rfl
        exact ⟨later :: states, .pass next (same ▸ run)⟩

/-- It ends with nothing else. -/
theorem eq_outcome (h : Consumes step valid used limit outcome) (here : valid state)
    (run : Run step state result states) : result = outcome state := by
  induction run with
  | stop last => exact (h.stop _ _ last).symm
  | pass next _ ih =>
      obtain ⟨there, -, same⟩ := h.pass _ _ here next
      exact (ih there).trans same

theorem pairwise_used (h : Consumes step valid used limit outcome) (here : valid state)
    (run : Run step state result states) : ((state :: states).map used).Pairwise (· < ·) := by
  induction run with
  | stop => exact List.pairwise_singleton _ _
  | @pass state later _ states next _ ih =>
      obtain ⟨there, more, -⟩ := h.pass state later here next
      have increasing := ih there
      refine List.pairwise_cons.mpr ⟨List.forall_mem_cons.mpr ⟨more, ?_⟩, increasing⟩
      intro amount member
      exact Nat.lt_trans more ((List.pairwise_cons.mp increasing).1 amount member)

theorem valid_of_run (h : Consumes step valid used limit outcome) (here : valid state)
    (run : Run step state result states) : ∀ passed ∈ state :: states, valid passed := by
  induction run with
  | stop => exact List.forall_mem_singleton.mpr here
  | pass next _ ih =>
      obtain ⟨there, -, -⟩ := h.pass _ _ here next
      exact List.forall_mem_cons.mpr ⟨here, ih there⟩

/-- Behind a state there are as many states as there is left to be used up, at most. -/
theorem length_add_used_le (h : Consumes step valid used limit outcome) (here : valid state)
    (run : Run step state result states) : states.length + used state ≤ limit := by
  induction run with
  | @stop state => simpa using h.within state here
  | @pass state later _ states next _ ih =>
      obtain ⟨there, more, -⟩ := h.pass state later here next
      have room := ih there
      rw [List.length_cons]
      omega

theorem terminates (h : Consumes step valid used limit outcome) (here : valid state) :
    Terminates step used limit state (outcome state) where
  ends := h.exists_run here
  advances _ states run := by
    refine ⟨h.eq_outcome here run, h.pairwise_used here run, ?_, ?_⟩
    · intro passed member
      exact h.within passed (h.valid_of_run here run passed member)
    · exact Nat.le_of_add_right_le (h.length_add_used_le here run)

end Consumes

end FetchQuery
