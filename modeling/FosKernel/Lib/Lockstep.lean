import FosKernel.Lib.Calls

/-!
# Two calls in lockstep

Two calls run in lockstep when both return related values or both stop for related
reasons. The rules of sequences, of loops and of facts about one of the two calls.
-/

namespace FosKernel

/-- Both calls return related values, or both stop for related reasons. -/
def Lockstep {ε α β : Type} (returns : α → β → Prop) (stops : ε → ε → Prop) :
    Except ε α → Except ε β → Prop
  | .ok left, .ok right => returns left right
  | .error left, .error right => stops left right
  | _, _ => False

namespace Lockstep

variable {ε α β γ δ : Type} {left : Except ε α} {right : Except ε β}
  {returns : α → β → Prop}
  {stops : ε → ε → Prop}

theorem ok {value : α} {value' : β} (related : returns value value') :
    Lockstep returns stops (.ok value) (.ok value') := related

theorem error {halt halt' : ε} (related : stops halt halt') :
    Lockstep returns stops (.error halt : Except ε α) (.error halt' : Except ε β) := related

theorem mono {returns' : α → β → Prop} (lockstep : Lockstep returns stops left right)
    (imp : ∀ value value', returns value value' → returns' value value') :
    Lockstep returns' stops left right := by
  cases left <;> cases right
  · exact lockstep
  · exact lockstep
  · exact lockstep
  · exact imp _ _ lockstep

/-- The rule of sequences. -/
theorem bind {rest : α → Except ε γ} {rest' : β → Except ε δ} {final : γ → δ → Prop}
    (lockstep : Lockstep returns stops left right)
    (next : ∀ value value', returns value value' →
      Lockstep final stops (rest value) (rest' value')) :
    Lockstep final stops (left >>= rest) (right >>= rest') := by
  cases left <;> cases right
  · exact lockstep
  · exact lockstep.elim
  · exact lockstep.elim
  · exact next _ _ lockstep

/-- The rule of loops over one list, with an invariant that no pair of rounds breaks. -/
theorem foldlM {ι : Type} {round : α → ι → Except ε α}
    {round' : β → ι → Except ε β}
    {items : List ι} (invariant : α → β → Prop)
    (step : ∀ value value', ∀ item ∈ items, invariant value value' →
      Lockstep invariant stops (round value item) (round' value' item)) :
    ∀ start start', invariant start start' →
      Lockstep invariant stops (items.foldlM round start) (items.foldlM round' start') := by
  induction items with
  | nil => exact fun start start' related => related
  | cons item items ih =>
      intro start start' related
      rw [List.foldlM_cons, List.foldlM_cons]
      apply (step start start' item (List.mem_cons_self ..) related).bind
      exact ih fun value value' other member =>
        step value value' other (List.mem_cons_of_mem _ member)

/-- A fact about where the left call ends. -/
theorem and_left {holds : α → Prop} {halts : ε → Prop}
    (lockstep : Lockstep returns stops left right)
    (ends : Ends left holds halts) :
    Lockstep (fun value value' => returns value value' ∧ holds value) stops left right := by
  cases left <;> cases right
  · exact lockstep
  · exact lockstep
  · exact lockstep
  · exact ⟨lockstep, ends⟩

/-- The values that both calls return are related. -/
theorem of_ok {value : α} {value' : β} (lockstep : Lockstep returns stops left right)
    (returned : left = .ok value) (returned' : right = .ok value') : returns value value' := by
  subst returned returned'
  exact lockstep

end Lockstep

end FosKernel
