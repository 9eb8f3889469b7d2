import Tributary.Proofs.Exchange
import Tributary.Proofs.Memory

/-!
# Programs side by side

The members of a crew run their programs over one memory. Any member may move at any time:
one move is one request and its answer, and what comes between two requests of a program is up
to the others. The store performs a call at once or refuses it with an error out of the blue;
everything else is answered as the surroundings like. `Run.asked` and `Run.ended` carry what a
program ensures by itself over to every run.
-/

namespace Tributary

/-- One program for each member. -/
structure Crew where
  Result : Nat → Type
  program : (i : Nat) → Program (Result i)

/-- What a member did, and the records before and after. -/
structure Move where
  member : Nat
  exchange : Exchange
  before : Memory
  after : Memory

/-- What a member has done itself. -/
def own (i : Nat) (history : List Move) : List Exchange :=
  (history.filter (·.member = i)).map (·.exchange)

/-- How a request may be answered, and what it leaves. `faulty` are the errors that may come
out of the blue. -/
def Serves (faulty : StoreError → Prop) (m : Memory) : (q : Request) → q.Answer → Memory → Prop
  | .store c, a, m' =>
    (∃ now, m.perform now c = (a, m')) ∨ ∃ e, faulty e ∧ a = .error e ∧ m' = m
  | _, _, m' => m' = m

/-- The moves that a crew can make, the latest first, and the records after them. -/
inductive Run (faulty : StoreError → Prop) (crew : Crew) (start : Memory) :
    List Move → Memory → Prop
  | start : Run faulty crew start [] start
  | move {past : List Move} {m m' : Memory} (run : Run faulty crew start past m) (i : Nat)
      {q : Request} {next : q.Answer → Program (crew.Result i)} {a : q.Answer}
      (left : (crew.program i).Leaves (own i past) (.ask q next))
      (serves : Serves faulty m q a m') : Run faulty crew start (⟨i, ⟨q, a⟩, m, m'⟩ :: past) m'

namespace Serves

variable {faulty : StoreError → Prop} {m m' : Memory} {c : Store.Call}

theorem granted {a : c.Result} (h : Serves faulty m (.store c) (.ok a) m') : m.Grants c a m' := by
  rcases h with ⟨now, h⟩ | ⟨e, _, h, _⟩
  · exact Memory.grants_of_perform h
  · cases h

theorem refused {e : StoreError} (h : Serves faulty m (.store c) (.error e) m') : m' = m := by
  rcases h with ⟨now, h⟩ | ⟨_, _, _, h⟩
  · exact Memory.eq_of_perform_error h
  · exact h

theorem sound {q : Request} {a : q.Answer} (h : Serves faulty m q a m') (sound : m.Sound) :
    m'.Sound := by
  cases q with
  | store c =>
    cases a with
    | ok a => exact (granted h).sound sound
    | error e => exact refused h ▸ sound
  | _ => exact (show m' = m from h) ▸ sound

theorem honest {q : Request} {a : q.Answer} (h : Serves faulty m q a m') (sound : m.Sound) :
    Exchange.Honest ⟨q, a⟩ := by
  match q, a, h with
  | .store (.get key), .ok r, h =>
    cases granted h with
    | get found => exact (sound key r found).1
  | .store (.get _), .error _, _ => trivial
  | .store (.create _), _, _ | .store (.update _), _, _ | .store (.updateStatus _), _, _
  | .store (.delete _), _, _ | .store .list, _, _ => trivial
  | .now, _, _ | .sleep _, _, _ | .coalescing _, _, _ | .aggregate _ _, _, _
  | .credentials _, _, _ | .push _ _ _ _, _, _ | .teardown _ _ _ _, _, _ => trivial

end Serves

theorem own_cons_self (m : Move) (past : List Move) :
    own m.member (m :: past) = m.exchange :: own m.member past := by
  simp [own]

theorem own_cons_of_ne {m : Move} {i : Nat} (h : m.member ≠ i) (past : List Move) :
    own i (m :: past) = own i past := by
  simp [own, h]

theorem own_append (i : Nat) (later earlier : List Move) :
    own i (later ++ earlier) = own i later ++ own i earlier := by
  simp [own]

/-- What a member has done itself up to some exchange, it has done up to some move. -/
theorem exists_of_own_append {i : Nat} {history : List Move} {since before : List Exchange}
    (h : own i history = since ++ before) :
    ∃ later earlier, history = later ++ earlier ∧ own i later = since ∧ own i earlier = before := by
  obtain ⟨since', before', split, rfl, rfl⟩ := List.map_eq_append_iff.1 h
  obtain ⟨later, earlier, rfl, rfl, rfl⟩ := List.filter_eq_append_iff.1 split
  exact ⟨later, earlier, rfl, rfl, rfl⟩

/-- An exchange of a member's own is one of the moves. -/
theorem exists_of_own {i : Nat} {history : List Move} {since before : List Exchange}
    {x : Exchange} (h : own i history = since ++ x :: before) :
    ∃ later mv earlier, history = later ++ mv :: earlier ∧ mv.member = i ∧ mv.exchange = x ∧
      own i later = since ∧ own i earlier = before := by
  obtain ⟨later, rest, rfl, rfl, hrest⟩ := exists_of_own_append h
  obtain ⟨mv, moves, split, rfl, rfl⟩ := List.map_eq_cons_iff.1 hrest
  obtain ⟨others, earlier, rfl, hothers, hmv, rfl⟩ := List.filter_eq_cons_iff.1 split
  have none : others.filter (·.member = i) = [] := List.filter_eq_nil_iff.2 hothers
  exact ⟨later ++ others, mv, earlier, by simp, by simpa using hmv, rfl,
    by simp [own, none], rfl⟩

/-- The records after some moves. -/
def memoryAfter (start : Memory) : List Move → Memory
  | [] => start
  | mv :: _ => mv.after

namespace Run

variable {faulty : StoreError → Prop} {crew : Crew} {start m : Memory}
  {history later earlier : List Move} {mv : Move}

/-- The run before its last move, and the move. -/
theorem last (run : Run faulty crew start (mv :: earlier) m) :
    Run faulty crew start earlier mv.before ∧
      Serves faulty mv.before mv.exchange.request mv.exchange.answer mv.after ∧
      ∃ next, (crew.program mv.member).Leaves (own mv.member earlier)
        (.ask mv.exchange.request next) := by
  cases run with
  | move run i left serves => exact ⟨run, serves, _, left⟩

theorem upto_move (run : Run faulty crew start (later ++ mv :: earlier) m) :
    Run faulty crew start (mv :: earlier) mv.after := by
  induction later generalizing m with
  | nil =>
    cases run with
    | move run i left serves => exact .move run i left serves
  | cons _ later ih =>
    cases run with
    | move run => exact ih run

theorem upto (run : Run faulty crew start (later ++ earlier) m) :
    ∃ m', Run faulty crew start earlier m' := by
  induction later generalizing m with
  | nil => exact ⟨m, run⟩
  | cons _ later ih =>
    cases run with
    | move run => exact ih run

theorem memory_eq (run : Run faulty crew start history m) : m = memoryAfter start history := by
  cases run <;> rfl

theorem sound (run : Run faulty crew start history m) (h : start.Sound) : m.Sound := by
  induction run with
  | start => exact h
  | move _ _ _ serves ih => exact serves.sound ih

theorem honest (run : Run faulty crew start history m) (h : start.Sound) (i : Nat) :
    ∀ x ∈ own i history, x.Honest := by
  induction run with
  | start => exact fun x hx => by cases hx
  | @move past m m' run j q next a left serves ih =>
    by_cases same : j = i
    · subst same
      rw [own_cons_self ⟨j, ⟨q, a⟩, m, m'⟩ past]
      intro x hx
      cases hx with
      | head => exact serves.honest (run.sound h)
      | tail _ hx => exact ih x hx
    · rw [own_cons_of_ne (m := ⟨j, ⟨q, a⟩, m, m'⟩) same past]
      exact ih

variable {i : Nat} {asks : List Exchange → Request → Prop}
  {ends : List Exchange → crew.Result i → Prop}

/-- What a program ensures of its requests by itself, it keeps to in company. -/
theorem asked (run : Run faulty crew start (mv :: earlier) m) (h : start.Sound)
    (hmv : mv.member = i) (ensures : (crew.program i).Ensures asks ends []) :
    asks (own i earlier) mv.exchange.request := by
  subst hmv
  obtain ⟨before, _, next, left⟩ := run.last
  exact (left.ensures (before.honest h _) ensures).1

theorem ended (run : Run faulty crew start history m) (h : start.Sound) {result : crew.Result i}
    (left : (crew.program i).Leaves (own i history) (.done result))
    (ensures : (crew.program i).Ensures asks ends []) : ends (own i history) result :=
  left.ensures (run.honest h i) ensures

end Run

end Tributary
