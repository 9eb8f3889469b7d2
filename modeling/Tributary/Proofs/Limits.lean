import Tributary.Proofs.Effort
import Tributary.Proofs.Skips

/-!
# How much a pass does

A pass ends, whatever it is answered: it pushes at most once and after all its teardowns, and how
often it tears down and calls the store is bounded by its allowed attempts. A record that changes
in each of that many rounds of teardown makes it give up (`Engine.reconcile_bounded`).
-/

namespace Tributary

/-! ## Rounds that the record does not allow to end -/

namespace Pass

open Session

variable {e : Engine} {type : String} {c c' : Record} {past : List Exchange}

theorem action_of_fail {category : Category} {reason : String} {action : Action}
    (h : (fail e category reason).Runs c past action c') : action ≠ .done := by
  obtain ⟨now, _, -, written⟩ := h.read.asked
  obtain ⟨_, _, outcome, _, -, -, ended⟩ := written.split
  cases outcome <;> exact ended.ended.2.1 ▸ nofun

/-- A deletion was refused. -/
def Refused (past : List Exchange) : Prop :=
  ∃ r error, (⟨.store (.delete r), .error error⟩ : Exchange) ∈ past

/-- A round that lets the pass end has met no other generation and no refusal. -/
def Closes (generation : Nat) (past : List Exchange) (outcome : Option Action) (c : Record) :
    Prop :=
  outcome = some .done → c.generation = generation ∧ ¬ Refused past

/-- What deletions cost, and nothing else. -/
def deletions : Tariff := { delete := 1 }

@[simp] theorem refused_append (since before : List Exchange) :
    Refused (since ++ before) ↔ Refused since ∨ Refused before := by
  simp only [Refused, List.mem_append, exists_or]

theorem not_refused {α : Type} {p rest : Program α} (l : p.Leaves past rest)
    (free : p.Within deletions 0) : ¬ Refused past := by
  rintro ⟨r, error, mem⟩
  cases free.free l mem

theorem not_refused_one {x : Exchange} (h : x.kind ≠ .removal) : ¬ Refused [x] := by
  rintro ⟨r, error, mem⟩
  obtain rfl := List.mem_singleton.1 mem
  exact h rfl

/-- The end of a full teardown, with or without the guard. -/
theorem deletion_closes {generation : Nat} {outcome : Option Action}
    (h : Runs (do
      if (← get).generation ≠ generation then
        Update.guard e.updater
        return none
      let r ← get
      match ← Session.request (.store (.delete r)) with
      | .ok _ => return some .done
      | .error error =>
        if error.isConflict then
          Update.refresh
          unless (← get).abandoned do Update.guard e.updater
          return none
        else throw (.store error)) c past outcome c') :
    Closes generation past outcome c' := by
  rintro rfl
  replace h := h.read
  split at h
  · obtain ⟨_, _, _, _, -, -, ended⟩ := h.split
    cases ended.ended.2.1
  · next same =>
    obtain ⟨answer, since, rfl, answered⟩ := h.read.asked
    cases answer with
    | ok =>
      obtain ⟨rfl, -, rfl⟩ := answered.ended
      refine ⟨Decidable.not_not.1 same, ?_⟩
      rintro ⟨r, error, mem⟩
      cases List.mem_singleton.1 mem
    | error error =>
      dsimp only at answered
      split at answered
      · obtain ⟨_, _, _, _, -, -, refreshed⟩ := answered.split
        replace refreshed := refreshed.read
        split at refreshed
        · cases refreshed.ended.2.1
        · obtain ⟨_, _, _, _, -, -, ended⟩ := refreshed.split
          cases ended.ended.2.1
      · cases answered.of_done.2

theorem releaseAndDelete_closes {generation : Nat} {outcome : Option Action}
    (h : (releaseAndDelete e generation).Runs c past outcome c') :
    Closes generation past outcome c' := by
  rintro rfl
  replace h := h.read
  split at h
  · obtain ⟨since, before, _, between, rfl, released, ended⟩ := h.split
    obtain ⟨same, none⟩ := deletion_closes ended rfl
    have free := not_refused released (Update.spec_within (t := deletions) e.updater _ c)
    exact ⟨same, by simp [none, free]⟩
  · exact deletion_closes h rfl

theorem finishPartial_closes {remaining : Aggregation} {generation : Nat}
    {outcome : Option Action} (h : (finishPartial e remaining generation).Runs c past outcome c') :
    Closes generation past outcome c' := by
  rintro rfl
  refine ⟨?_, not_refused h (finishPartial_within e remaining generation c)⟩
  have last {c : Record} {past : List Exchange} (h : Runs (do
      Update.spec e.updater fun r =>
        if r.generation = generation then { r with teardownRequested := false } else r
      return if (← get).generation = generation then some Action.done else none) c past
        (some .done) c') : c'.generation = generation := by
    obtain ⟨_, _, _, _, -, -, ended⟩ := h.split
    obtain ⟨-, same, rfl⟩ := ended.read.ended
    exact Decidable.by_contra fun other => by simp [other] at same
  replace h := h.read
  split at h
  · exact last h
  · obtain ⟨_, _, -, marked⟩ := h.asked
    obtain ⟨_, _, _, _, -, -, ended⟩ := marked.split
    exact last ended

theorem cutDown_closes {remaining : Aggregation} {finish : Session (Option Action)}
    {generation : Nat} {outcome : Option Action}
    (h : Runs (do
        match ← cutBack type remaining with
        | some error => some <$> fail e error.category ("teardown failed: " ++ error.text)
        | none => finish) c past outcome c')
    (finishes : ∀ c past, finish.Runs c past outcome c' → Closes generation past outcome c') :
    Closes generation past outcome c' := by
  rintro rfl
  obtain ⟨since, before, failure, between, rfl, cut, ended⟩ := h.split
  cases failure with
  | some error =>
    obtain ⟨_, failed, same⟩ := ended.map
    exact absurd (Option.some.inj same).symm (action_of_fail failed)
  | none =>
    obtain ⟨same, none⟩ := finishes _ _ ended rfl
    have free := not_refused cut (cutBack_within (t := deletions) type remaining c)
    exact ⟨same, by simp [none, free]⟩

theorem teardown_closes {outcome : Option Action}
    (h : (teardown e type).Runs c past outcome c') : Closes c.generation past outcome c' := by
  rintro rfl
  replace h := h.read
  split at h
  · cases h.ended.2.1
  obtain ⟨now, since, rfl, timed⟩ := h.asked
  have clock := not_refused_one (x := ⟨.now, now⟩) (by simp [Exchange.kind])
  split at timed
  · cases timed.ended.2.1
  dsimp only at timed
  split at timed
  · have closed := cutDown_closes timed fun _ _ ended => releaseAndDelete_closes ended
    simpa [clock] using closed rfl
  · obtain ⟨answer, since, rfl, aggregated⟩ := timed.asked
    have calculated := not_refused_one (x := ⟨.aggregate type c.sources, answer⟩)
      (by simp [Exchange.kind])
    cases answer with
    | error error =>
      obtain ⟨_, failed, same⟩ := aggregated.map
      exact absurd (Option.some.inj same).symm (action_of_fail failed)
    | ok remaining =>
      have closed := cutDown_closes aggregated fun _ _ ended => finishPartial_closes ended
      simpa only [refused_append, clock, calculated, or_false] using closed rfl

/-- So many rounds of teardown, one after the other: each gets through, but in each somebody has
changed the record. -/
inductive Interrupted (e : Engine) (type : String) :
    Nat → Record → List Exchange → Record → Prop
  | start (c : Record) : Interrupted e type 0 c [] c
  | round {n : Nat} {c between c' : Record} {since before : List Exchange}
      {outcome : Option Action} (needs : c.needsTeardown = true)
      (left : (teardown e type).Runs c before outcome between)
      (through : ∀ action, outcome = some action → action = .done)
      (changed : between.generation ≠ c.generation ∨ Refused before)
      (more : Interrupted e type n between since c') :
      Interrupted e type (n + 1) c (since ++ before) c'

theorem rounds_exhausted {n : Nat} (h : Interrupted e type n c past c') (key : String) :
    ((rounds e key type n).start c).Leaves past
      (.done (.error (.retriesExhausted key e.updater.maxAttempts), c')) := by
  induction h with
  | start c => exact .start
  | @round n c between c' since before outcome needs left through changed _ ih =>
    have again : outcome = none := by
      cases outcome with
      | none => rfl
      | some action =>
        obtain ⟨same, none⟩ := teardown_closes left (congrArg some (through action rfl))
        exact absurd changed (by simp [same, none])
    subst again
    change (Session.start (if c.needsTeardown then _ else _) c).Leaves _ _
    rw [if_pos needs, start_bind]
    exact (left.bind _).trans ih

end Pass

/-! ## What a pass does at most -/

/-- No teardown comes after a push. -/
def Ordered (past : List Exchange) : Prop :=
  past.Pairwise fun later earlier => earlier.kind = .push → later.kind ≠ .teardown

namespace Tariff

def pushes : Tariff := { push := 1 }

def teardowns : Tariff := { teardown := 1 }

/-- What calls of the store cost, and nothing else. -/
def storing : Tariff := { store := 1, delete := 1 }

/-- Every request costs the same. -/
def even : Tariff := ⟨1, 1, 1, 1, 1, 1, 1, 1, 1⟩

theorem price_pushes (x : Exchange) :
    pushes.price x.request = if x.kind = .push then 1 else 0 := by
  obtain ⟨q, a⟩ := x
  cases q with
  | store c => cases c <;> rfl
  | _ => rfl

theorem price_teardowns (x : Exchange) :
    teardowns.price x.request = if x.kind = .teardown then 1 else 0 := by
  obtain ⟨q, a⟩ := x
  cases q with
  | store c => cases c <;> rfl
  | _ => rfl

theorem price_storing (q : Request) : storing.price q = if q.isStore then 1 else 0 := by
  cases q with
  | store c => cases c <;> rfl
  | _ => rfl

theorem price_even (q : Request) : even.price q = 1 := by
  cases q with
  | store c => cases c <;> rfl
  | _ => rfl

theorem spent_pushes (past : List Exchange) :
    pushes.spent past = past.countP (·.kind = .push) :=
  spent_eq_countP (fun x => by simp [price_pushes]) past

theorem spent_teardowns (past : List Exchange) :
    teardowns.spent past = past.countP (·.kind = .teardown) :=
  spent_eq_countP (fun x => by simp [price_teardowns]) past

theorem spent_storing (past : List Exchange) :
    storing.spent past = past.countP (·.request.isStore) :=
  spent_eq_countP (fun x => price_storing x.request) past

theorem spent_even (past : List Exchange) : even.spent past = past.length := by
  induction past with
  | nil => rfl
  | cons x past ih => rw [spent, price_even, ih, Nat.add_comm, List.length_cons]

theorem pushes_pass (n : Nat) : pushes.pass n = 1 := by
  simp [pass, round, synchronisation, update, pushes]

theorem teardowns_pass (n : Nat) : teardowns.pass n = n := by
  simp [pass, round, synchronisation, update, teardowns]

theorem storing_pass (n : Nat) : storing.pass n = 4 * (n * n) + 14 * n + 1 := by
  simp only [pass, round, synchronisation, update, storing]
  grind

theorem even_pass (n : Nat) : even.pass n = 6 * (n * n) + 25 * n + 8 := by
  simp only [pass, round, synchronisation, update, even]
  grind

end Tariff

namespace Program

open Tariff

variable {α β : Type} {p : Program α} {f : α → Program β} {past : List Exchange}
  {rest : Program α}

theorem Within.no_push (h : p.Within pushes 0) (l : p.Leaves past rest) :
    ∀ x ∈ past, x.kind ≠ .push := by
  intro x mem push
  have free := h.free l mem
  simp [price_pushes, push] at free

theorem Within.no_teardown (h : p.Within teardowns 0) (l : p.Leaves past rest) :
    ∀ x ∈ past, x.kind ≠ .teardown := by
  intro x mem down
  have free := h.free l mem
  simp [price_teardowns, down] at free

/-- A program never tears down after a push. -/
def Orders (p : Program α) : Prop := ∀ past rest, p.Leaves past rest → Ordered past

theorem orders_of_pushes (h : p.Within pushes 0) : p.Orders := fun _ _ l =>
  List.pairwise_of_forall_mem_list fun _ _ y mem push => absurd push (h.no_push l y mem)

theorem orders_of_teardowns (h : p.Within teardowns 0) : p.Orders := fun _ _ l =>
  List.pairwise_of_forall_mem_list fun x mem _ _ _ => h.no_teardown l x mem

/-- One program after another: either the first one pushes nothing or the second one tears nothing
down. -/
theorem Orders.bind (h : p.Orders) (h' : ∀ a, (f a).Orders)
    (apart : p.Within pushes 0 ∨ ∀ a, (f a).Within teardowns 0) : (p >>= f).Orders := by
  intro past rest l
  obtain ⟨q, next, first, -⟩ | ⟨since, before, a, rfl, first, second⟩ := l.of_bind
  · exact h _ _ first
  · refine List.pairwise_append.2 ⟨h' a _ _ second, h _ _ first, ?_⟩
    intro x later y earlier push
    obtain pushless | kept := apart
    · exact absurd push (pushless.no_push first y earlier)
    · exact (kept a).no_teardown second x later

theorem Orders.kept (h : p.Orders) (h' : ∀ a, (f a).Within teardowns 0) : (p >>= f).Orders :=
  h.bind (fun a => orders_of_teardowns (h' a)) (.inr h')

end Program

namespace Engine

open Session Program Tariff

variable (e : Engine) (key : String)

theorem run_orders (copy : Record) : ((Pass.run e key).start copy).Orders := by
  change (Session.start (if e.knows copy.resourceType then _ else _) copy).Orders
  split
  · rw [start_bind]
    have pushless : (Pass.rounds e key copy.resourceType e.updater.maxAttempts).Within pushes 0 :=
      Pass.rounds_within e key copy.resourceType e.updater.maxAttempts
    refine (orders_of_pushes (pushless copy)).kept fun result => ?_
    obtain ⟨e | _ | action, copy⟩ := result
    · trivial
    · exact Pass.synchronise_within (t := teardowns) e key _ copy
    · trivial
  · exact orders_of_pushes (Pass.unknownType_within e copy)

theorem reconcile_orders : (e.reconcile key).Orders := by
  rw [reconcile_eq]
  refine Orders.bind (p := Program.request _) (orders_of_pushes ⟨Nat.le_refl _, fun _ => trivial⟩)
    (fun answer => ?_) (.inl ⟨Nat.le_refl _, fun _ => trivial⟩)
  cases answer with
  | error error => exact orders_of_pushes trivial
  | ok r =>
    exact (e.run_orders key r).kept fun result => within_done

/-- What holds of a pass at any time, with what it has done and what is left of it. -/
structure Bounded (past : List Exchange) (rest : Program (Except SyncError Action)) : Prop where
  /-- It pushes at most once. -/
  pushes : past.countP (·.kind = .push) ≤ 1
  /-- It tears down at most as often as it may try a write. -/
  teardowns : past.countP (·.kind = .teardown) ≤ e.updater.maxAttempts
  /-- It does not tear down after it has pushed. -/
  ordered : Ordered past
  /-- Only the allowed attempts bound how often it calls the store. -/
  storing : past.countP (·.request.isStore) ≤
    4 * (e.updater.maxAttempts * e.updater.maxAttempts) + 14 * e.updater.maxAttempts + 1
  /-- It goes on with any answer until it has ended, and that it has after so many requests. -/
  ends : (∃ result, rest = .done result) ∨
    past.length <
      6 * (e.updater.maxAttempts * e.updater.maxAttempts) + 25 * e.updater.maxAttempts + 8
  /-- After as many rounds of teardown in which the record has changed it gives up. -/
  exhausted : ∀ c since c', past = since ++ [⟨.store (.get key), .ok c⟩] →
    e.knows c.resourceType = true →
    Pass.Interrupted e c.resourceType e.updater.maxAttempts c since c' →
    rest = .done (.error (.retriesExhausted key e.updater.maxAttempts))

theorem run_exhausted {c c' : Record} {since : List Exchange}
    (known : e.knows c.resourceType = true)
    (h : Pass.Interrupted e c.resourceType e.updater.maxAttempts c since c') :
    (e.reconcile key).Leaves (since ++ [⟨.store (.get key), .ok c⟩])
      (.done (.error (.retriesExhausted key e.updater.maxAttempts))) := by
  rw [reconcile_eq]
  refine Leaves.trans (.step .start _) ?_
  have rounds := Pass.rounds_exhausted h key
  have ran : ((Pass.run e key).start c).Leaves since
      (.done (.error (.retriesExhausted key e.updater.maxAttempts), c')) := by
    change (Session.start (if e.knows c.resourceType then _ else _) c).Leaves _ _
    rw [if_pos known, start_bind]
    exact rounds.bind _
  exact ran.bind _

/-- Whatever a pass is answered, it ends after a number of requests that only the allowed attempts
determine, with one push at most, after all teardowns. If the record changes in as many rounds of
teardown, it gives up. -/
theorem reconcile_bounded {past : List Exchange} {rest : Program (Except SyncError Action)}
    (l : (e.reconcile key).Leaves past rest) : e.Bounded key past rest where
  pushes := by
    rw [← spent_pushes, ← pushes_pass e.updater.maxAttempts]
    exact ((e.reconcile_within key pushes).left l).1
  teardowns := by
    have spent := ((e.reconcile_within key teardowns).left l).1
    rwa [spent_teardowns, teardowns_pass] at spent
  ordered := e.reconcile_orders key past rest l
  storing := by
    rw [← spent_storing, ← storing_pass]
    exact ((e.reconcile_within key storing).left l).1
  ends := by
    have left := ((e.reconcile_within key even).left l).2
    cases rest with
    | done result => exact .inl ⟨result, rfl⟩
    | ask q next =>
      have more := left.1
      rw [price_even, spent_even, even_pass] at more
      exact .inr (by omega)
  exhausted := by
    rintro c since c' rfl known interrupted
    exact l.unique (e.run_exhausted key known interrupted)

end Engine

/-- A pass that tries everything twice. -/
def hasty : Engine := { knows := fun _ => true, updater := { maxRetries := 2 } }

/-- The deletion of the record of `a` is asked for. A pass tears it down while `b` and `c` join. -/
def restless : Nat → Job :=
  Job.roster [.joins "a", .requestDeletion {} "r", .reconcile hasty "r", .joins "b", .joins "c"]

/-- `b` is entered before the first deletion, and `c` before the second one. -/
def unrest : Scene (Job.crew restless) :=
  (Scene.opening (Job.crew restless) {}).play {}
    [0, 0, 0, 1, 1, 1, 2, 2, 2, 2, 3, 3, 3, 2, 2, 2, 2, 2, 4, 4, 4, 2, 2]

/-- The version that was stored before a move. -/
def unrestAt (n : Nat) : Record :=
  (unrest.history.reverse[n]?.bind (·.before.records.get? "r")).getD default

/-- A round that tears down a version and finds another one when it deletes it. -/
def lateRound (token : Nat) (v w : Record) : List Exchange :=
  [⟨.store (.get "r"), .ok w⟩, ⟨.store (.delete v), .error (.conflict "r" token (token + 1))⟩,
    ⟨.teardown "t" {} ⟨none⟩ .empty, .ok ()⟩, ⟨.credentials none, .ok ⟨none⟩⟩, ⟨.now, ⟨0, 0⟩⟩]

theorem lateRound_refused (token : Nat) (v w : Record) : Pass.Refused (lateRound token v w) :=
  ⟨_, _, .tail _ (.head _)⟩

/-- The pass has torn down twice, and each time the record had changed. -/
theorem unrest_bounded :
    own 2 unrest.history = lateRound 3 (unrestAt 13) (unrestAt 21) ++
      lateRound 2 (unrestAt 6) (unrestAt 13) ++ [⟨.store (.get "r"), .ok (unrestAt 6)⟩] ∧
    Pass.Interrupted hasty "t" hasty.updater.maxAttempts (unrestAt 6)
      (lateRound 3 (unrestAt 13) (unrestAt 21) ++ lateRound 2 (unrestAt 6) (unrestAt 13))
      (unrestAt 21) ∧
    hasty.Bounded "r" (own 2 unrest.history) (.done (.error (.retriesExhausted "r" 2))) := by
  have real : Scene.Real (fun _ => False) {} unrest := Scene.real_play _
  have left : (hasty.reconcile "r").Leaves (own 2 unrest.history)
      (.done (.error (.retriesExhausted "r" 2))) := real.left 2
  have first : (Pass.teardown hasty "t").Runs (unrestAt 6)
      (lateRound 2 (unrestAt 6) (unrestAt 13)) none (unrestAt 13) := by
    refine Program.Replays.leaves (p := Session.start _ _)
      (?_ : Program.Replays _ (lateRound 2 (unrestAt 6) (unrestAt 13)).reverse _)
    exact ⟨_, rfl, _, rfl, _, rfl, _, rfl, _, rfl, rfl⟩
  have second : (Pass.teardown hasty "t").Runs (unrestAt 13)
      (lateRound 3 (unrestAt 13) (unrestAt 21)) none (unrestAt 21) := by
    refine Program.Replays.leaves (p := Session.start _ _)
      (?_ : Program.Replays _ (lateRound 3 (unrestAt 13) (unrestAt 21)).reverse _)
    exact ⟨_, rfl, _, rfl, _, rfl, _, rfl, _, rfl, rfl⟩
  refine ⟨rfl, ?_, hasty.reconcile_bounded "r" left⟩
  refine .round rfl first nofun (.inr (lateRound_refused ..)) ?_
  exact .round rfl second nofun (.inr (lateRound_refused ..)) (.start _)

end Tributary
