import Tributary.Proofs.Exchange

/-!
# How programs go on

What a program does that goes on with another one, taken apart and put together. A session that ends
well has run through its parts, one after the other (`Session.Runs`).
-/

namespace Tributary

namespace Program.Leaves

variable {α β : Type} {p left : Program α} {past before since : List Exchange}

theorem bind (l : p.Leaves past left) (f : α → Program β) :
    (p >>= f).Leaves past (left >>= f) := by
  induction l with
  | start => exact .start
  | step _ a ih => exact ih.step a

theorem trans {rest : Program α} (l : p.Leaves before left) (l' : left.Leaves since rest) :
    p.Leaves (since ++ before) rest := by
  induction l' with
  | start => exact l
  | step _ a ih => exact ih.step a

theorem of_done {a : α} {rest : Program α} (l : (Program.done a).Leaves past rest) :
    past = [] ∧ rest = .done a := by
  induction l with
  | start => exact ⟨rfl, rfl⟩
  | step _ _ ih => cases ih.2

theorem of_ask {q : Request} {next : q.Answer → Program α} {rest : Program α}
    (l : (Program.ask q next).Leaves past rest) :
    (past = [] ∧ rest = .ask q next) ∨
      ∃ a since, past = since ++ [⟨q, a⟩] ∧ (next a).Leaves since rest := by
  induction l with
  | start => exact .inl ⟨rfl, rfl⟩
  | step _ b ih =>
    obtain ⟨rfl, same⟩ | ⟨a, since, rfl, l⟩ := ih
    · obtain ⟨rfl, rfl⟩ := Program.ask.inj same
      exact .inr ⟨b, [], rfl, .start⟩
    · exact .inr ⟨a, ⟨_, b⟩ :: since, rfl, l.step b⟩

/-- Of two programs, one after the other, the first one has not ended yet or the other has begun. -/
theorem of_bind {f : α → Program β} {rest : Program β} (l : (p >>= f).Leaves past rest) :
    (∃ q next, p.Leaves past (.ask q next) ∧ rest = .ask q fun a => next a >>= f) ∨
      ∃ since before a, past = since ++ before ∧ p.Leaves before (.done a) ∧
        (f a).Leaves since rest := by
  have begun {before : List Exchange} {left : Program α} (first : p.Leaves before left) :
      (∃ q next, p.Leaves before (.ask q next) ∧ left >>= f = .ask q fun a => next a >>= f) ∨
        ∃ since earlier a, before = since ++ earlier ∧ p.Leaves earlier (.done a) ∧
          (f a).Leaves since (left >>= f) := by
    cases left with
    | done a => exact .inr ⟨[], before, a, rfl, first, .start⟩
    | ask q next => exact .inl ⟨q, next, first, rfl⟩
  induction l with
  | start => exact begun .start
  | @step past q next l a ih =>
    obtain ⟨q', next', first, same⟩ | ⟨since, before, b, rfl, first, second⟩ := ih
    · obtain ⟨rfl, rfl⟩ := Program.ask.inj same
      exact begun (first.step a)
    · exact .inr ⟨⟨q, a⟩ :: since, before, b, rfl, first, second.step a⟩

end Program.Leaves

/-- What is left of a program after exchanges, the latest last. -/
def Program.Replays {α : Type} (rest : Program α) : List Exchange → Program α → Prop
  | [], p => p = rest
  | x :: later, p => ∃ next, p = .ask x.request next ∧ rest.Replays later (next x.answer)

theorem Program.Replays.leaves {α : Type} {p rest : Program α} {xs : List Exchange}
    (h : rest.Replays xs p) : p.Leaves xs.reverse rest := by
  induction xs generalizing p with
  | nil => exact h ▸ .start
  | cons x later ih =>
    obtain ⟨next, rfl, h⟩ := h
    rw [List.reverse_cons]
    exact (Program.Leaves.start.step x.answer).trans (ih h)

/-- A session on a copy has ended well, with an answer and a copy, after these exchanges. -/
def Session.Runs {α : Type} (s : Session α) (copy : Record) (past : List Exchange) (a : α)
    (copy' : Record) : Prop :=
  (s.start copy).Leaves past (.done (.ok a, copy'))

section

variable {α β : Type} {s : Session α} {f : α → Session β} {copy copy' : Record} {a : α} {b : β}
  {past : List Exchange}

theorem Session.Runs.split (h : (s >>= f).Runs copy past b copy') :
    ∃ since before a between, past = since ++ before ∧ s.Runs copy before a between ∧
      (f a).Runs between since b copy' := by
  unfold Session.Runs at h
  rw [Session.start_bind] at h
  obtain ⟨q, next, -, same⟩ | ⟨since, before, ⟨e | a, between⟩, rfl, first, second⟩ := h.of_bind
  · cases same
  · cases second.of_done.2
  · exact ⟨since, before, a, between, rfl, first, second⟩

theorem Session.Runs.read {f : Record → Session β}
    (h : ((get : Session Record) >>= f).Runs copy past b copy') :
    (f copy).Runs copy past b copy' := h

theorem Session.Runs.asked {q : Request} {f : q.Answer → Session β}
    (h : (Session.request q >>= f).Runs copy past b copy') :
    ∃ a since, past = since ++ [⟨q, a⟩] ∧ (f a).Runs copy since b copy' := by
  obtain ⟨-, same⟩ | asked := Program.Leaves.of_ask h
  · cases same
  · exact asked

theorem Session.Runs.ended {b : α} (h : (pure a : Session α).Runs copy past b copy') :
    past = [] ∧ b = a ∧ copy' = copy := by
  obtain ⟨rfl, same⟩ := h.of_done
  cases same
  exact ⟨rfl, rfl, rfl⟩

theorem Session.Runs.map {g : α → β} (h : (g <$> s).Runs copy past b copy') :
    ∃ a, s.Runs copy past a copy' ∧ b = g a := by
  rw [map_eq_pure_bind] at h
  obtain ⟨since, before, a, between, rfl, first, second⟩ := h.split
  obtain ⟨rfl, same⟩ := second.of_done
  cases same
  exact ⟨a, first, rfl⟩

end

end Tributary
