import KVCache.Data.Runs

/-! Maps that may lose entries, and machines that implement them. What happens
to the map is written down as a history of effects, latest first; the map after
a history is what lookups have to return. -/

namespace Runs

universe u v

variable {σ : Type u} {α ω κ : Type} {ε : Type v} {step : σ → α → Except ε (σ × List ω)}
  {Q : σ → α → Prop}

/-- What the steps of a run stand for, latest first. -/
def labels (step : σ → α → Except ε (σ × List ω)) (label : σ → α → List ω → List κ) :
    σ → List α → List κ
  | _, [] => []
  | s, a :: rest =>
      match step s a with
      | .ok (s', done) => labels step label s' rest ++ label s a done
      | .error _ => []

/-- The rule for properties of the state and of what has happened so far. -/
theorem run_labels (label : σ → α → List ω → List κ) {P : σ → List ω → List κ → Prop}
    (hStep : ∀ s a s' done events history, P s events history → Q s a →
      step s a = .ok (s', done) → P s' (done ++ events) (label s a done ++ history))
    {s s' : σ} {actions : List α} (events : List ω) {done : List ω} (history : List κ)
    (hRun : run step s actions = .ok (s', done)) (hAlong : Along step Q s actions)
    (hStart : P s events history) :
    P s' (done ++ events) (labels step label s actions ++ history) := by
  induction actions generalizing s events done history with
  | nil =>
      obtain ⟨rfl, rfl⟩ := Prod.mk.inj (Except.ok.inj hRun)
      exact hStart
  | cons a rest ih =>
      obtain ⟨s₁, first, later, hFirst, hRest, rfl⟩ := run_cons.mp hRun
      obtain ⟨hQ, hLater⟩ := (along_cons hFirst).mp hAlong
      have hEnd := ih _ _ hRest hLater (hStep s a s₁ first events history hStart hQ hFirst)
      simpa only [labels, hFirst, List.append_assoc] using hEnd

end Runs

namespace LossyMap

variable {κ ο : Type} [DecidableEq κ]

/-- What can happen to a map. -/
inductive Effect (κ ο : Type) where
  /-- a cell is given to an object, or emptied -/
  | set (cell : κ) (object : Option ο)
  /-- these cells are emptied, whatever they held -/
  | lose (cells : List κ)
  deriving DecidableEq, Repr

def apply (m : κ → Option ο) : Effect κ ο → κ → Option ο
  | .set cell object, x => if x = cell then object else m x
  | .lose cells, x => if x ∈ cells then none else m x

/-- The map after a history. -/
def after (m : κ → Option ο) : List (Effect κ ο) → κ → Option ο
  | [] => m
  | effect :: history => apply (after m history) effect

@[simp] theorem after_nil (m : κ → Option ο) : after m [] = m := rfl

@[simp] theorem after_cons (m : κ → Option ο) (effect : Effect κ ο) (history : List (Effect κ ο)) :
    after m (effect :: history) = apply (after m history) effect := rfl

theorem after_append (m : κ → Option ο) (later earlier : List (Effect κ ο)) :
    after m (later ++ earlier) = after (after m earlier) later := by
  induction later with
  | nil => rfl
  | cons effect later ih => rw [List.cons_append, after_cons, after_cons, ih]

end LossyMap
