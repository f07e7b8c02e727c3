/-!
# Calls that return or stop

A call either returns a value or stops. When a sequence of two calls returns,
when it stops, and the rules for what holds where a call ends.
-/

namespace FosKernel

/-- A sequence of two calls returns when both do. -/
theorem bind_eq_ok {ε α γ : Type} {call : Except ε α} {rest : α → Except ε γ}
    {result : γ} :
    (call >>= rest) = .ok result ↔ ∃ value, call = .ok value ∧ rest value = .ok result := by
  cases call with
  | error halt =>
      constructor
      · intro returned
        cases returned
      · intro ⟨value, returned, _⟩
        cases returned
  | ok value =>
      constructor
      · intro returned
        exact ⟨value, rfl, returned⟩
      · intro ⟨_, same, returned⟩
        obtain rfl := Except.ok.inj same
        exact returned

/-- A sequence of two calls stops when one of them does. -/
theorem bind_eq_error {ε α γ : Type} {call : Except ε α} {rest : α → Except ε γ}
    {halt : ε} :
    (call >>= rest) = .error halt ↔
      call = .error halt ∨ ∃ value, call = .ok value ∧ rest value = .error halt := by
  cases call with
  | error other =>
      constructor
      · intro stopped
        obtain rfl := Except.error.inj stopped
        exact .inl rfl
      · intro stopped
        obtain same | ⟨value, returned, _⟩ := stopped
        · obtain rfl := Except.error.inj same
          rfl
        · cases returned
  | ok value =>
      constructor
      · intro stopped
        exact .inr ⟨value, rfl, stopped⟩
      · intro stopped
        obtain same | ⟨_, same, rest⟩ := stopped
        · cases same
        · obtain rfl := Except.ok.inj same
          exact rest

/-- A sequence still returns when its second call is replaced by one that returns at least as
often. -/
theorem bind_ok_mono {ε α γ : Type} {call : Except ε α}
    {rest rest' : α → Except ε γ} {result : γ}
    (more : ∀ value result, rest value = .ok result → rest' value = .ok result)
    (returned : (call >>= rest) = .ok result) : (call >>= rest') = .ok result := by
  obtain ⟨value, called, last⟩ := bind_eq_ok.mp returned
  exact bind_eq_ok.mpr ⟨value, called, more value result last⟩

/-- The call returns a value that passes a test. -/
def Returns {ε α : Type} (call : Except ε α) (test : α → Bool) : Bool :=
  match call with
  | .ok value => test value
  | .error _ => false

theorem Returns.exists {ε α : Type} {call : Except ε α} {test : α → Bool}
    (returns : Returns call test = true) : ∃ value, call = .ok value ∧ test value = true := by
  cases call with
  | error halt => cases returns
  | ok value => exact ⟨value, rfl, returns⟩

/-- The call stops for a reason that passes a test. -/
def Stops {ε α : Type} (call : Except ε α) (test : ε → Bool) : Bool :=
  match call with
  | .ok _ => false
  | .error halt => test halt

theorem Stops.exists {ε α : Type} {call : Except ε α} {test : ε → Bool}
    (stops : Stops call test = true) : ∃ halt, call = .error halt ∧ test halt = true := by
  cases call with
  | ok value => cases stops
  | error halt => exact ⟨halt, rfl, stops⟩

/-- What holds where a call ends: of its value when it returns, and of the reason when it stops. -/
def Ends {ε α : Type} (call : Except ε α) (returns : α → Prop) (stops : ε → Prop) :
    Prop :=
  match call with
  | .ok value => returns value
  | .error halt => stops halt

namespace Ends

variable {ε α γ : Type} {call : Except ε α} {returns returns' : α → Prop}
  {stops stops' : ε → Prop}

theorem ok {value : α} (holds : returns value) :
    Ends (.ok value : Except ε α) returns stops := holds

theorem error {halt : ε} (holds : stops halt) :
    Ends (.error halt : Except ε α) returns stops := holds

theorem of_ok (ends : Ends call returns stops) {value : α} (returned : call = .ok value) :
    returns value := by
  subst returned
  exact ends

theorem of_error (ends : Ends call returns stops) {halt : ε} (stopped : call = .error halt) :
    stops halt := by
  subst stopped
  exact ends

/-- What holds whenever the call returns. -/
theorem of_returns (holds : ∀ value, call = .ok value → returns value) :
    Ends call returns fun _ => True := by
  cases call with
  | error halt => trivial
  | ok value => exact holds value rfl

/-- A call that cannot stop returns. -/
theorem exists_ok (ends : Ends call returns fun _ => False) :
    ∃ value, call = .ok value ∧ returns value := by
  cases call with
  | error halt => exact ends.elim
  | ok value => exact ⟨value, rfl, ends⟩

theorem mono (ends : Ends call returns stops)
    (return_imp : ∀ value, returns value → returns' value)
    (stop_imp : ∀ halt, stops halt → stops' halt) : Ends call returns' stops' := by
  cases call with
  | error halt => exact stop_imp halt ends
  | ok value => exact return_imp value ends

/-- Two facts about where one call ends hold together. -/
theorem and (ends : Ends call returns stops) (ends' : Ends call returns' stops') :
    Ends call (fun value => returns value ∧ returns' value) fun halt =>
        stops halt ∧ stops' halt := by
  cases call with
  | error halt => exact ⟨ends, ends'⟩
  | ok value => exact ⟨ends, ends'⟩

/-- The rule of sequences. -/
theorem bind {rest : α → Except ε γ} {final : γ → Prop} (ends : Ends call returns stops)
    (next : ∀ value, returns value → Ends (rest value) final stops) :
    Ends (call >>= rest) final stops := by
  cases call with
  | error halt => exact ends
  | ok value => exact next value ends

/-- The rule of loops over a list, with an invariant that no round breaks. -/
theorem foldlM {β : Type} {round : γ → β → Except ε γ} {items : List β}
    (invariant : γ → Prop)
    (step : ∀ value, ∀ item ∈ items, invariant value →
      Ends (round value item) invariant stops) :
    ∀ start, invariant start → Ends (items.foldlM round start) invariant stops := by
  induction items with
  | nil => exact fun start holds => holds
  | cons item items ih =>
      intro start holds
      rw [List.foldlM_cons]
      apply (step start item (List.mem_cons_self ..) holds).bind
      exact ih fun value other member => step value other (List.mem_cons_of_mem _ member)

/-- The rule of loops that count, with an invariant of the rounds so far. -/
theorem foldlM_range {round : γ → Nat → Except ε γ} {count : Nat}
    (invariant : Nat → γ → Prop)
    (step : ∀ index < count, ∀ value, invariant index value →
      Ends (round value index) (invariant (index + 1)) stops) (start : γ)
        (holds : invariant 0 start) :
    Ends ((List.range count).foldlM round start) (invariant count) stops := by
  induction count with
  | zero => exact holds
  | succ count ih =>
      rw [List.range_succ, List.foldlM_append]
      apply (ih fun index less => step index (Nat.lt_succ_of_lt less)).bind
      intro value holds
      rw [List.foldlM_cons]
      exact (step count (Nat.lt_succ_self _) value holds).bind fun _ holds => holds

end Ends

end FosKernel
