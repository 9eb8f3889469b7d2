import Tributary.Program

/-!
# What a program does

A program shows itself in its exchanges: what it has asked so far and what it was answered,
the latest first. `Program.Leaves` says which program is left after some exchanges, and
`Program.Ensures` what holds of every request and of every result, whatever is answered.
`Leaves.ensures` connects the two. The rules for sessions follow their steps.
-/

namespace Tributary

/-- A request and what it was answered. -/
structure Exchange where
  request : Request
  answer : request.Answer

namespace Exchange

/-- A store answers a reading with a record of the key that was asked for. -/
def Honest : Exchange → Prop
  | ⟨.store (.get key), .ok r⟩ => r.key = key
  | _ => True

end Exchange

namespace Program

variable {α β : Type}

/-- What is left of a program after some exchanges. -/
inductive Leaves (p : Program α) : List Exchange → Program α → Prop
  | start : Leaves p [] p
  | step {past : List Exchange} {q : Request} {next : q.Answer → Program α}
      (h : Leaves p past (.ask q next)) (a : q.Answer) : Leaves p (⟨q, a⟩ :: past) (next a)

/-- Whatever the program is answered, it asks only as `asks` allows after what it has done,
and its result meets `ends`. -/
def Ensures (asks : List Exchange → Request → Prop) (ends : List Exchange → α → Prop) :
    Program α → List Exchange → Prop
  | .done a, past => ends past a
  | .ask q next, past =>
    asks past q ∧
      ∀ a, Exchange.Honest ⟨q, a⟩ → (next a).Ensures asks ends (⟨q, a⟩ :: past)

variable {asks : List Exchange → Request → Prop}

theorem ensures_bind {ends : List Exchange → β → Prop} (p : Program α) (f : α → Program β)
    (past : List Exchange) :
    (p >>= f).Ensures asks ends past ↔
      p.Ensures asks (fun past a => (f a).Ensures asks ends past) past := by
  induction p generalizing past with
  | done a => rfl
  | ask q next ih => simp only [ask_bind, Ensures, ih]

theorem ensures_map {ends : List Exchange → β → Prop} (f : α → β) (p : Program α)
    (past : List Exchange) :
    (f <$> p).Ensures asks ends past ↔ p.Ensures asks (fun past a => ends past (f a)) past :=
  ensures_bind p (fun a => .done (f a)) past

theorem ensures_request {ends : List Exchange → β → Prop} (q : Request)
    (f : q.Answer → Program β) (past : List Exchange) :
    (request q >>= f).Ensures asks ends past ↔
      asks past q ∧
        ∀ a, Exchange.Honest ⟨q, a⟩ → (f a).Ensures asks ends (⟨q, a⟩ :: past) :=
  Iff.rfl

theorem Ensures.mono {ends ends' : List Exchange → α → Prop} {p : Program α}
    {past : List Exchange} (h : p.Ensures asks ends past)
    (weaker : ∀ past a, ends past a → ends' past a) : p.Ensures asks ends' past := by
  induction p generalizing past with
  | done a => exact weaker past a h
  | ask q next ih => exact ⟨h.1, fun a honest => ih a (h.2 a honest)⟩

variable {p rest : Program α} {ends : List Exchange → α → Prop}

theorem Leaves.ensures {past : List Exchange} (l : p.Leaves past rest)
    (honest : ∀ x ∈ past, x.Honest) (h : p.Ensures asks ends []) :
    rest.Ensures asks ends past := by
  induction l with
  | start => exact h
  | @step past q next l a ih =>
    have before := ih fun x hx => honest x (List.mem_cons_of_mem _ hx)
    exact before.2 a (honest _ List.mem_cons_self)

end Program

namespace Session

variable {α β : Type} {asks : List Exchange → Request → Prop}
  {ends : List Exchange → Except SyncError α → Record → Prop}
  {ends' : List Exchange → Except SyncError β → Record → Prop}
  {copy : Record} {past : List Exchange}

/-- As `Program.Ensures`, for a session that works on a copy; its result comes with the copy
that it leaves. -/
def Ensures (asks : List Exchange → Request → Prop)
    (ends : List Exchange → Except SyncError α → Record → Prop) (s : Session α) (copy : Record)
    (past : List Exchange) : Prop :=
  (s.start copy).Ensures asks (fun past result => ends past result.1 result.2) past

/-- What a session goes on with, unless it has thrown. -/
def andThen (f : α → Session β) :
    Except SyncError α × Record → Program (Except SyncError β × Record)
  | (.ok a, copy) => (f a).start copy
  | (.error e, copy) => .done (.error e, copy)

theorem start_bind (s : Session α) (f : α → Session β) (copy : Record) :
    (s >>= f).start copy = s.start copy >>= andThen f := by
  refine congrArg (s.start copy >>= ·) (funext fun result => ?_)
  obtain ⟨a | e, copy⟩ := result <;> rfl

/-- A program that goes on with what has become of a session. -/
theorem ensures_start {ends : List Exchange → β → Prop} (s : Session α)
    (f : Except SyncError α × Record → Program β) :
    (s.start copy >>= f).Ensures asks ends past ↔
      s.Ensures asks (fun past result copy => (f (result, copy)).Ensures asks ends past) copy
        past :=
  Program.ensures_bind (s.start copy) f past

/-- What a session ensures after a part of it has ended. -/
def Continues (asks : List Exchange → Request → Prop)
    (ends : List Exchange → Except SyncError β → Record → Prop) (f : α → Session β)
    (past : List Exchange) (result : Except SyncError α) (copy : Record) : Prop :=
  match result with
  | .ok a => (f a).Ensures asks ends copy past
  | .error e => ends past (.error e) copy

@[simp] theorem continues_ok (f : α → Session β) (a : α) :
    Continues asks ends' f past (.ok a) copy ↔ (f a).Ensures asks ends' copy past := Iff.rfl

theorem ensures_bind (s : Session α) (f : α → Session β) :
    (s >>= f).Ensures asks ends' copy past ↔
      s.Ensures asks (Continues asks ends' f) copy past := by
  unfold Ensures
  rw [start_bind, Program.ensures_bind]
  refine iff_of_eq (congrArg (fun ends => (s.start copy).Ensures asks ends past) ?_)
  funext past result
  obtain ⟨a | e, copy⟩ := result <;> rfl

@[simp] theorem ensures_pure (a : α) :
    (pure a : Session α).Ensures asks ends copy past ↔ ends past (.ok a) copy := Iff.rfl

@[simp] theorem ensures_get (f : Record → Session β) :
    ((get : Session Record) >>= f).Ensures asks ends' copy past ↔
      (f copy).Ensures asks ends' copy past := Iff.rfl

@[simp] theorem ensures_set (r : Record) (f : Unit → Session β) :
    ((set r : Session Unit) >>= f).Ensures asks ends' copy past ↔
      (f ()).Ensures asks ends' r past := Iff.rfl

theorem ensures_request (q : Request) (f : q.Answer → Session β) :
    (request q >>= f).Ensures asks ends' copy past ↔
      asks past q ∧
        ∀ a, Exchange.Honest ⟨q, a⟩ → (f a).Ensures asks ends' copy (⟨q, a⟩ :: past) :=
  Iff.rfl

theorem ensures_map (g : α → β) (s : Session α) :
    (g <$> s).Ensures asks ends' copy past ↔
      s.Ensures asks (fun past result copy => ends' past (result.map g) copy) copy past := by
  rw [map_eq_pure_bind, ensures_bind]
  refine iff_of_eq (congrArg (fun ends => Ensures asks ends s copy past) ?_)
  funext past result copy
  cases result <;> rfl

theorem ensures_attempt
    {ends : List Exchange → Except SyncError (Except SyncError α) → Record → Prop}
    (s : Session α) :
    s.attempt.Ensures asks ends copy past ↔
      s.Ensures asks (fun past result copy => ends past (.ok result) copy) copy past :=
  Program.ensures_map _ (s.start copy) past

theorem Ensures.mono {ends₂ : List Exchange → Except SyncError α → Record → Prop}
    {s : Session α} (h : s.Ensures asks ends copy past)
    (weaker : ∀ past result copy, ends past result copy → ends₂ past result copy) :
    s.Ensures asks ends₂ copy past :=
  Program.Ensures.mono h fun past result => weaker past result.1 result.2

/-- What holds of a session's result, unless it gives up. -/
def Yields (ends : List Exchange → α → Record → Prop) (past : List Exchange) :
    Except SyncError α → Record → Prop
  | .ok a, copy => ends past a copy
  | .error _, _ => True

variable {yields : List Exchange → α → Record → Prop} {yields' : List Exchange → β → Record → Prop}

/-- A session that goes on with what a part of it has yielded. -/
theorem Ensures.next {s : Session α} {f : α → Session β}
    (h : s.Ensures asks (Yields yields) copy past)
    (rest : ∀ past a copy, yields past a copy → (f a).Ensures asks (Yields yields') copy past) :
    (s >>= f).Ensures asks (Yields yields') copy past := by
  rw [ensures_bind]
  refine h.mono fun past result copy yielded => ?_
  cases result with
  | ok a => exact rest past a copy yielded
  | error e => trivial

variable {c : Prop} [Decidable c] {s : Session Unit} {f : Unit → Session β}
  (between : List Exchange → Unit → Record → Prop)

/-- A session that begins with a part under a condition. -/
theorem ensures_when (step : c → s.Ensures asks (Yields between) copy past)
    (skip : ¬c → between past () copy)
    (rest : ∀ past a copy, between past a copy → (f a).Ensures asks (Yields yields') copy past) :
    (if c then s >>= f else f ()).Ensures asks (Yields yields') copy past := by
  split
  · next h => exact (step h).next rest
  · next h => exact rest past () copy (skip h)

theorem ensures_unless (step : ¬c → s.Ensures asks (Yields between) copy past)
    (skip : c → between past () copy)
    (rest : ∀ past a copy, between past a copy → (f a).Ensures asks (Yields yields') copy past) :
    (if c then f () else s >>= f).Ensures asks (Yields yields') copy past := by
  split
  · next h => exact rest past () copy (skip h)
  · next h => exact (step h).next rest

end Session

end Tributary
