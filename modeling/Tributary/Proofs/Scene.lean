import Tributary.Proofs.Crew

/-!
# Runs that can be computed

A scene plays a run: the members take turns in a given order, a memory answers their store
calls and fixed surroundings everything else. `Scene.real_play` says that it is a run.
-/

namespace Tributary

/-- What answers a request, apart from the store. -/
structure Surroundings where
  now : Instant := ⟨0, 0⟩
  busy : Bool := false
  aggregate : List Contribution → Except SyncError Aggregation :=
    fun sources => .ok ⟨.null, sources.length, sources.map (·.owner)⟩
  credentials : Except DownstreamError Credentials := .ok ⟨none⟩
  push : Except DownstreamError PushOutcome := .ok {}
  teardown : Except DownstreamError Unit := .ok ()

def Surroundings.answer (s : Surroundings) (m : Memory) : (q : Request) → q.Answer × Memory
  | .store c => m.perform s.now c
  | .now => (s.now, m)
  | .sleep _ => ((), m)
  | .coalescing _ => (s.busy, m)
  | .aggregate _ sources => (s.aggregate sources, m)
  | .credentials _ => (s.credentials, m)
  | .push .. => (s.push, m)
  | .teardown .. => (s.teardown, m)

theorem Surroundings.serves (s : Surroundings) (faulty : StoreError → Prop) (m : Memory)
    (q : Request) : Serves faulty m q (s.answer m q).1 (s.answer m q).2 := by
  cases q with
  | store c => exact .inl ⟨s.now, rfl⟩
  | _ => rfl

/-- A run so far, and what is left of the programs. -/
structure Scene (crew : Crew) where
  history : List Move
  memory : Memory
  left : (i : Nat) → Program (crew.Result i)

namespace Scene

variable {crew : Crew}

/-- Before the first move. -/
def opening (crew : Crew) (start : Memory) : Scene crew := ⟨[], start, crew.program⟩

/-- The next move of a member, if anything is left of its program. -/
def turn (around : Surroundings) (s : Scene crew) (i : Nat) : Scene crew :=
  match s.left i with
  | .done _ => s
  | .ask q next =>
    let (a, m) := around.answer s.memory q
    ⟨⟨i, ⟨q, a⟩, s.memory, m⟩ :: s.history, m,
      fun j => if h : i = j then h ▸ next a else s.left j⟩

/-- The members take turns in an order. -/
def play (around : Surroundings) (s : Scene crew) (order : List Nat) : Scene crew :=
  order.foldl (turn around) s

variable {faulty : StoreError → Prop} {start : Memory} {around : Surroundings} {s : Scene crew}

/-- The scene is that of a run. -/
structure Real (faulty : StoreError → Prop) (start : Memory) (s : Scene crew) : Prop where
  run : Run faulty crew start s.history s.memory
  left : ∀ i, (crew.program i).Leaves (own i s.history) (s.left i)

theorem real_opening : Real faulty start (opening crew start) := ⟨.start, fun _ => .start⟩

theorem Real.move (h : Real faulty start s) {i : Nat} {q : Request}
    {next : q.Answer → Program (crew.Result i)} (asks : s.left i = .ask q next) {a : q.Answer}
    {m : Memory} (serves : Serves faulty s.memory q a m) :
    Real faulty start (⟨⟨i, ⟨q, a⟩, s.memory, m⟩ :: s.history, m,
      fun j => if h : i = j then h ▸ next a else s.left j⟩ : Scene crew) := by
  have left : (crew.program i).Leaves (own i s.history) (.ask q next) := asks ▸ h.left i
  refine ⟨h.run.move i left serves, fun j => ?_⟩
  by_cases same : i = j
  · subst same
    have own := own_cons_self ⟨i, ⟨q, a⟩, s.memory, m⟩ s.history
    simp only [own, dif_pos]
    exact left.step a
  · rw [own_cons_of_ne (m := ⟨i, ⟨q, a⟩, s.memory, m⟩) same s.history]
    simp only [same, dif_neg, not_false_eq_true]
    exact h.left j

theorem Real.turn (h : Real faulty start s) (i : Nat) : Real faulty start (s.turn around i) := by
  unfold Scene.turn
  split
  · exact h
  · next q next asks => exact h.move asks (around.serves faulty s.memory q)

theorem Real.play (h : Real faulty start s) (order : List Nat) :
    Real faulty start (s.play around order) := by
  induction order generalizing s with
  | nil => exact h
  | cons i order ih => exact ih (h.turn i)

theorem real_play (order : List Nat) : Real faulty start ((opening crew start).play around order) :=
  real_opening.play order

end Scene

end Tributary
