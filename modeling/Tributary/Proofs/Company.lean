import Tributary.Proofs.Commits

/-!
# Programs in company

A program works on the record of one key, and others may change that record between any two of
its requests. A `Company` says how, and what every exchange has to preserve; `Program.Amid` says
that a program preserves it whatever happens, and what holds when it ends. The rules for sessions
follow their steps, as those of `Session.Ensures` do.
-/

namespace Tributary

/-! ## One record -/

/-- An exchange, with what the record of a key is before and after it. -/
def Turns (faulty : StoreError → Prop) (key : String) (v : Option Record) (x : Exchange)
    (v' : Option Record) : Prop :=
  ∃ m m' : Memory, m.Sound ∧ m.records.get? key = v ∧
    Serves faulty m x.request x.answer m' ∧ m'.records.get? key = v'

namespace Turns

variable {faulty : StoreError → Prop} {key : String} {v v' : Option Record} {x : Exchange}

theorem same (h : Turns faulty key v x v') (none : x.isCommit = false) : v' = v := by
  obtain ⟨m, m', _, rfl, serves, rfl⟩ := h
  rw [serves.same none]

theorem found {k : String} {r : Record} (hkey : k = key)
    (h : Turns faulty key v ⟨.store (.get k), .ok r⟩ v') :
    v = some r ∧ v' = some r ∧ r.key = key := by
  subst hkey
  obtain rfl := h.same rfl
  obtain ⟨m, m', sound, stored, serves, _⟩ := h
  have granted : m.Grants (.get k) r m' := Serves.granted serves
  clear serves
  cases granted with
  | get found => exact ⟨stored ▸ found, stored ▸ found, (sound k r found).1⟩

theorem wrote {half : Half} {r : Record} {token : Nat} (hkey : r.key = key)
    (h : Turns faulty key v (Update.written half r (.ok token)) v') :
    ∃ w now, v = some w ∧ w.key = key ∧ r.token = w.token ∧ w.token < token ∧
      v' = some (half.merged r w token now) := by
  obtain ⟨m, m', sound, rfl, serves, rfl⟩ := h
  obtain ⟨w, now, found, current, rfl, rfl⟩ := serves.wrote
  have known := sound _ _ found
  rw [hkey] at found
  refine ⟨w, now, found, known.1.trans hkey, current, known.2, ?_⟩
  rw [Memory.get?_put, half.key_merged known.1.symm, if_pos (known.1.trans hkey).symm]

theorem deleted {r : Record} (hkey : r.key = key)
    (h : Turns faulty key v ⟨.store (.delete r), .ok ()⟩ v') :
    ∃ w, v = some w ∧ r.token = w.token ∧ w.pendingTeardown = false ∧ v' = none := by
  obtain ⟨m, m', sound, rfl, serves, rfl⟩ := h
  have granted : m.Grants (.delete r) () m' := Serves.granted serves
  clear serves
  cases granted with
  | @delete _ w found current released =>
    rw [hkey] at found ⊢
    exact ⟨w, found, current, released, by simp⟩

end Turns

/-! ## Company -/

/-- In which company a program works on the record of a key. -/
structure Company where
  key : String
  faulty : StoreError → Prop
  /-- What others may make of the record between two requests. -/
  others : Option Record → Option Record → Prop
  /-- How requests may be answered. -/
  answers : Exchange → Prop
  /-- What every exchange of the program has to preserve. -/
  keeps : List Exchange → Option Record → Prop
  keeps_others : ∀ {past v w}, keeps past v → others v w → keeps past w
  keeps_upkeep : ∀ {past x v}, keeps past v → x.kind = .upkeep → keeps (x :: past) v

namespace Program

variable {α β : Type} {s : Company} {past : List Exchange} {v : Option Record}

/-- Whatever others do and however the program is answered, it preserves what its company
asks for, and its result meets `ends`. -/
def Amid (s : Company) (ends : List Exchange → α → Option Record → Prop) :
    Program α → List Exchange → Option Record → Prop
  | .done a, past, v => ends past a v
  | .ask q next, past, v =>
    ∀ v₁ a v₂, s.others v v₁ → s.answers ⟨q, a⟩ → Turns s.faulty s.key v₁ ⟨q, a⟩ v₂ →
      s.keeps (⟨q, a⟩ :: past) v₂ ∧ (next a).Amid s ends (⟨q, a⟩ :: past) v₂

theorem amid_bind {ends : List Exchange → β → Option Record → Prop} (p : Program α)
    (f : α → Program β) :
    (p >>= f).Amid s ends past v ↔
      p.Amid s (fun past a v => (f a).Amid s ends past v) past v := by
  induction p generalizing past v with
  | done a => rfl
  | ask q next ih => simp only [ask_bind, Amid, ih]

theorem amid_map {ends : List Exchange → β → Option Record → Prop} (f : α → β) (p : Program α) :
    (f <$> p).Amid s ends past v ↔ p.Amid s (fun past a v => ends past (f a) v) past v :=
  amid_bind p fun a => .done (f a)

theorem amid_request {ends : List Exchange → β → Option Record → Prop} (q : Request)
    (f : q.Answer → Program β) :
    (request q >>= f).Amid s ends past v ↔
      ∀ v₁ a v₂, s.others v v₁ → s.answers ⟨q, a⟩ → Turns s.faulty s.key v₁ ⟨q, a⟩ v₂ →
        s.keeps (⟨q, a⟩ :: past) v₂ ∧ (f a).Amid s ends (⟨q, a⟩ :: past) v₂ :=
  Iff.rfl

theorem Amid.mono {ends ends' : List Exchange → α → Option Record → Prop} {p : Program α}
    (h : p.Amid s ends past v) (weaker : ∀ past a v, ends past a v → ends' past a v) :
    p.Amid s ends' past v := by
  induction p generalizing past v with
  | done a => exact weaker past a v h
  | ask q next ih =>
    intro v₁ a v₂ others answers turns
    have := h v₁ a v₂ others answers turns
    exact ⟨this.1, ih a this.2⟩

/-- What a program does comes after what was done before. -/
theorem Amid.suffix {ends : List Exchange → α → Option Record → Prop} {p : Program α}
    (h : p.Amid s ends past v) :
    p.Amid s (fun past' a v => past <:+ past' ∧ ends past' a v) past v := by
  suffices ∀ base, base <:+ past →
      p.Amid s (fun past' a v => base <:+ past' ∧ ends past' a v) past v from
    this past List.suffix_rfl
  intro base earlier
  induction p generalizing past v with
  | done a => exact ⟨earlier, h⟩
  | ask q next ih =>
    intro v₁ a v₂ others answers turns
    obtain ⟨keeps, h⟩ := h v₁ a v₂ others answers turns
    exact ⟨keeps, ih a h (earlier.trans (List.suffix_cons _ _))⟩

/-- What others do before the next request is accounted for. -/
theorem Amid.others {ends : List Exchange → α → Option Record → Prop} {p : Program α}
    {w : Option Record} (h : p.Amid s ends past v)
    (before : ∀ {u}, s.others w u → s.others v u)
    (stable : ∀ past a, ends past a v → ends past a w) : p.Amid s ends past w := by
  cases p with
  | done a => exact stable past a h
  | ask q next => exact fun v₁ a v₂ others => h v₁ a v₂ (before others)

end Program

namespace Session

variable {α β : Type} {s : Company} {ends : List Exchange → Except SyncError α → Record →
  Option Record → Prop} {ends' : List Exchange → Except SyncError β → Record → Option Record → Prop}
  {copy : Record} {past : List Exchange} {v : Option Record}

/-- As `Program.Amid`, for a session that works on a copy. -/
def Amid (s : Company)
    (ends : List Exchange → Except SyncError α → Record → Option Record → Prop)
    (session : Session α) (copy : Record) (past : List Exchange) (v : Option Record) : Prop :=
  (session.start copy).Amid s (fun past result v => ends past result.1 result.2 v) past v

/-- What holds of a session after a part of it has ended. -/
def GoesOn (s : Company)
    (ends : List Exchange → Except SyncError β → Record → Option Record → Prop)
    (f : α → Session β) (past : List Exchange) (result : Except SyncError α) (copy : Record)
    (v : Option Record) : Prop :=
  match result with
  | .ok a => (f a).Amid s ends copy past v
  | .error e => ends past (.error e) copy v

theorem amid_bind (session : Session α) (f : α → Session β) :
    (session >>= f).Amid s ends' copy past v ↔ session.Amid s (GoesOn s ends' f) copy past v := by
  unfold Amid
  rw [start_bind, Program.amid_bind]
  refine iff_of_eq (congrArg (fun ends => (session.start copy).Amid s ends past v) ?_)
  funext past result v
  obtain ⟨a | e, copy⟩ := result <;> rfl

@[simp] theorem amid_get (f : Record → Session β) :
    ((get : Session Record) >>= f).Amid s ends' copy past v ↔
      (f copy).Amid s ends' copy past v := Iff.rfl

@[simp] theorem amid_set (r : Record) (f : Unit → Session β) :
    ((set r : Session Unit) >>= f).Amid s ends' copy past v ↔
      (f ()).Amid s ends' r past v := Iff.rfl

theorem amid_request (q : Request) (f : q.Answer → Session β) :
    (request q >>= f).Amid s ends' copy past v ↔
      ∀ v₁ a v₂, s.others v v₁ → s.answers ⟨q, a⟩ → Turns s.faulty s.key v₁ ⟨q, a⟩ v₂ →
        s.keeps (⟨q, a⟩ :: past) v₂ ∧ (f a).Amid s ends' copy (⟨q, a⟩ :: past) v₂ :=
  Iff.rfl

theorem amid_map (g : α → β) (session : Session α) :
    (g <$> session).Amid s ends' copy past v ↔
      session.Amid s (fun past result copy v => ends' past (result.map g) copy v) copy past v := by
  rw [map_eq_pure_bind, amid_bind]
  refine iff_of_eq (congrArg (fun ends => Amid s ends session copy past v) ?_)
  funext past result copy v
  cases result <;> rfl

theorem amid_attempt
    {ends : List Exchange → Except SyncError (Except SyncError α) → Record → Option Record → Prop}
    (session : Session α) :
    session.attempt.Amid s ends copy past v ↔
      session.Amid s (fun past result copy v => ends past (.ok result) copy v) copy past v :=
  Program.amid_map _ (session.start copy)

theorem Amid.mono {ends₂ : List Exchange → Except SyncError α → Record → Option Record → Prop}
    {session : Session α} (h : session.Amid s ends copy past v)
    (weaker : ∀ past result copy v, ends past result copy v → ends₂ past result copy v) :
    session.Amid s ends₂ copy past v :=
  Program.Amid.mono h fun past result => weaker past result.1 result.2

/-- What holds of a session's result: `gives` if it gives up. -/
def Becomes (gives : List Exchange → SyncError → Record → Option Record → Prop)
    (leads : List Exchange → α → Record → Option Record → Prop) (past : List Exchange) :
    Except SyncError α → Record → Option Record → Prop
  | .ok a, copy, v => leads past a copy v
  | .error e, copy, v => gives past e copy v

/-- What holds when a session gives up. An error that says that the record is gone is the answer
of a store call. -/
structure GivesUp (s : Company) (past : List Exchange) (e : SyncError) (copy : Record)
    (v : Option Record) : Prop where
  keeps : s.keeps past v
  key : copy.key = s.key
  gone : e.isNotFound = true → ∃ c a rest, past = ⟨.store c, a⟩ :: rest

/-- What holds of a session's result, unless it gives up. -/
abbrev Leads (s : Company) (leads : List Exchange → α → Record → Option Record → Prop) :
    List Exchange → Except SyncError α → Record → Option Record → Prop :=
  Becomes (GivesUp s) leads

section

variable {gives : List Exchange → SyncError → Record → Option Record → Prop}
  {leads : List Exchange → α → Record → Option Record → Prop}
  {leads' : List Exchange → β → Record → Option Record → Prop} {session : Session α}

/-- A session that goes on with what a part of it has led to. -/
theorem Amid.next {f : α → Session β} (h : session.Amid s (Becomes gives leads) copy past v)
    (rest : ∀ past a copy v, leads past a copy v →
      (f a).Amid s (Becomes gives leads') copy past v) :
    (session >>= f).Amid s (Becomes gives leads') copy past v := by
  rw [amid_bind]
  refine h.mono fun past result copy v led => ?_
  cases result with
  | ok a => exact rest past a copy v led
  | error e => exact led

theorem Amid.weaken {leads' : List Exchange → α → Record → Option Record → Prop}
    (h : session.Amid s (Becomes gives leads) copy past v)
    (weaker : ∀ past a copy v, leads past a copy v → leads' past a copy v) :
    session.Amid s (Becomes gives leads') copy past v :=
  h.mono fun past result copy v led => by
    cases result with
    | ok a => exact weaker past a copy v led
    | error e => exact led

theorem Amid.map {g : α → β} (h : session.Amid s (Becomes gives leads) copy past v)
    (weaker : ∀ past a copy v, leads past a copy v → leads' past (g a) copy v) :
    (g <$> session).Amid s (Becomes gives leads') copy past v :=
  (amid_map g session).2 <| h.mono fun past result copy v led => by
    cases result with
    | ok a => exact weaker past a copy v led
    | error e => exact led

end

variable {gives : List Exchange → SyncError → Record → Option Record → Prop}
  {leads : List Exchange → β → Record → Option Record → Prop} {c : Prop} [Decidable c]
  {session : Session Unit} {f : Unit → Session β}
  (between : List Exchange → Unit → Record → Option Record → Prop)

/-- A session that begins with a part under a condition. -/
theorem amid_when (step : c → session.Amid s (Becomes gives between) copy past v)
    (skip : ¬c → between past () copy v)
    (rest : ∀ past a copy v, between past a copy v →
      (f a).Amid s (Becomes gives leads) copy past v) :
    (if c then session >>= f else f ()).Amid s (Becomes gives leads) copy past v := by
  split
  · next h => exact (step h).next rest
  · next h => exact rest past () copy v (skip h)

theorem amid_unless (step : ¬c → session.Amid s (Becomes gives between) copy past v)
    (skip : c → between past () copy v)
    (rest : ∀ past a copy v, between past a copy v →
      (f a).Amid s (Becomes gives leads) copy past v) :
    (if c then f () else session >>= f).Amid s (Becomes gives leads) copy past v := by
  split
  · next h => exact rest past () copy v (skip h)
  · next h => exact (step h).next rest

end Session

/-! ## Updates -/

namespace Update

open Session (Leads amid_get amid_set)

variable {β : Type} {s : Company} {copy : Record} {past : List Exchange} {v : Option Record}
  {ends : List Exchange → Except SyncError β → Record → Option Record → Prop}

theorem amid_put (half : Half) (f : Except StoreError Nat → Session β) :
    ((liftM (put half copy) : Session _) >>= f).Amid s ends copy past v ↔
      ∀ v₁ a v₂, s.others v v₁ → s.answers (written half copy a) →
        Turns s.faulty s.key v₁ (written half copy a) v₂ →
          s.keeps (written half copy a :: past) v₂ ∧
            (f a).Amid s ends copy (written half copy a :: past) v₂ := by
  cases half <;> exact Iff.rfl

variable {leads : List Exchange → β → Record → Option Record → Prop} {base : List Exchange}

theorem refresh_amid {f : Unit → Session β} (hkey : copy.key = s.key) (keeps : s.keeps past v)
    (rest : ∀ r, r.key = s.key → s.others v (some r) →
      s.keeps (⟨.store (.get s.key), .ok r⟩ :: past) (some r) →
      (f ()).Amid s (Leads s leads) r (⟨.store (.get s.key), .ok r⟩ :: past) (some r)) :
    (refresh >>= f).Amid s (Leads s leads) copy past v := by
  rw [← hkey] at rest
  intro v₁ a v₂ others _ turns
  have keeps := s.keeps_others keeps others
  cases a with
  | ok r =>
    obtain ⟨rfl, rfl, hr⟩ := turns.found hkey
    have keeps := s.keeps_upkeep (x := ⟨.store (.get copy.key), .ok r⟩) keeps rfl
    exact ⟨keeps, rest r (hr.trans hkey.symm) others keeps⟩
  | error e =>
    obtain rfl := turns.same rfl
    have keeps := s.keeps_upkeep (x := ⟨.store (.get copy.key), .error e⟩) keeps rfl
    exact ⟨keeps, keeps, hkey, fun _ => ⟨_, _, _, rfl⟩⟩

/-- The rule for updates. `inv` holds of the copy and the stored version before every try, and
`made` of the copy and what is committed; that is read again, after others may have changed it. -/
theorem tries_amid (policy : RetryPolicy) (half : Half) (change : Record → Record × β)
    (inv : Record → Option Record → Prop) (made : Record → Record → Prop)
    (others : ∀ c v w, inv c v → s.others v w → inv c w)
    (key : ∀ c v, inv c v → (change c).1.key = s.key)
    (again : ∀ c r, r.key = s.key → inv c (some r) → inv r (some r))
    (commit : ∀ past c w token now, Upkeep base past → inv c (some w) →
      (change c).1.token = w.token → w.token < token → s.keeps past (some w) →
        s.keeps past (some (half.merged (change c).1 w token now)) ∧
          made c (half.merged (change c).1 w token now))
    (done : ∀ past c n r, Upkeep base past → r.key = s.key → made c n →
      s.others (some n) (some r) → s.keeps (⟨.store (.get s.key), .ok r⟩ :: past) (some r) →
        leads (⟨.store (.get s.key), .ok r⟩ :: past) (change c).2 r (some r))
    (n : Nat) (hkey : copy.key = s.key) (u : Upkeep base past) (keeps : s.keeps past v)
    (start : inv copy v) :
    (tries policy half change n).Amid s (Leads s leads) copy past v := by
  induction n generalizing copy past v with
  | zero => exact ⟨keeps, hkey, fun none => by cases none⟩
  | succ n ih =>
    unfold tries
    simp only [amid_get, amid_set, amid_put]
    intro v₁ answer v₂ moved _ turns
    have keeps := s.keeps_others keeps moved
    have start := others _ _ _ start moved
    have hkey := key _ _ start
    have u' := u.step (kind_written half (change copy).1 answer)
    cases answer with
    | ok token =>
      obtain ⟨w, now, rfl, hw, current, newer, rfl⟩ := turns.wrote hkey
      obtain ⟨keeps, made⟩ := commit past copy w token now u start current newer keeps
      have keeps := s.keeps_upkeep keeps (kind_written half (change copy).1 (.ok token))
      refine ⟨keeps, refresh_amid hkey keeps fun r hr read keeps => ?_⟩
      exact done _ copy _ r u' hr made read keeps
    | error error =>
      obtain rfl := turns.same (by simp [Except.isOk, Except.toBool])
      have keeps := s.keeps_upkeep keeps (kind_written half (change copy).1 (.error error))
      refine ⟨keeps, ?_⟩
      dsimp only
      split
      · intro v₁ slept v₂ moved _ turns
        obtain rfl := turns.same rfl
        have keeps := s.keeps_upkeep (x := ⟨.sleep policy.conflictDelay, slept⟩)
          (s.keeps_others keeps moved) rfl
        refine ⟨keeps, refresh_amid hkey keeps fun r hr read keeps => ?_⟩
        have start := others _ _ _ (others _ _ _ start moved) read
        exact ih hr ((u'.step rfl).step rfl) keeps (again _ _ hr start)
      · refine ⟨keeps, hkey, fun _ => ?_⟩
        cases half <;> exact ⟨_, _, _, rfl⟩

end Update

end Tributary
