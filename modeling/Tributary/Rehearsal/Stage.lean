import Tributary.Host.Basic
import Tributary.Rehearsal.World
import Tributary.Time.Timeline

/-!
# A stage to rehearse on

One thing happens at a time: the main line of the rehearsal, or a task of the host. Tasks
that can go on wait in a line. The clock moves on when the line is empty, to the next
alarm, and everything that is due then joins the line. Where the main line waits, it is the
first to go on.
-/

namespace Tributary.Rehearsal

/-- The debouncers: the one that holds back passes of the main line, and those of the host. -/
inductive Which where
  | gate
  | intake
  | requeue
  deriving DecidableEq

inductive Task where
  | takeEvents
  | dispatch
  | resync
  /-- A worker asks for a permit. -/
  | work (key : String)
  /-- A worker has a permit. -/
  | pass (key : String)
  /-- A pass goes on after a wait. -/
  | resume (key : String)
  /-- A debouncer's alarm has to be set. -/
  | arm (which : Which) (key : String) (number ticks : Nat)
  | ring (which : Which) (key : String) (number : Nat)
  /-- The main line goes on. -/
  | main
  deriving DecidableEq

abbrev PassProgram := Program (Except SyncError Action)

structure Stage where
  world : World
  line : List Task := []
  alarms : Timeline Task := {}
  host : Option Host := none
  /-- How the passes that wait go on. -/
  waitingPasses : Table (World → World × PassProgram) := {}

namespace Stage

def knows (resourceType : String) : Bool := (aggregator? resourceType).isSome

/-- Puts a task at the end of the line, if it is not there. -/
def wake (s : Stage) (t : Task) : Stage :=
  if s.line.contains t then s else { s with line := s.line ++ [t] }

/-- Puts a task at the head of the line. -/
def next (s : Stage) (t : Task) : Stage := { s with line := t :: s.line }

/-- Sets an alarm for the end of a wait. -/
def alarm (s : Stage) (ticks : Nat) (t : Task) : Stage :=
  { s with alarms := s.alarms.set (Timeline.after s.world.clock ticks) t }

/-- Hands the events of the store to the host. -/
def deliver (s : Stage) : Stage :=
  let events := s.world.published
  let s := { s with world := { s.world with published := [] } }
  match s.host with
  | none => s
  | some h =>
    if h.stopping ∨ events = [] then s
    else { s with host := some { h with undelivered := h.undelivered ++ events } }.wake .takeEvents

/-- Queues keys for the dispatcher. -/
def enqueue (s : Stage) (h : Host) (keys : List String) : Stage :=
  let s := { s with host := some (h.enqueue keys) }
  if keys = [] then s else s.wake .dispatch

/-- Takes in all events. -/
def takeEvents : List Event → Host → Stage → Stage
  | [], h, s => { s with host := some h }
  | _ :: rest, h, s =>
    match h.takeEvent with
    | (h, none) => takeEvents rest h s
    | (h, some (key, number)) =>
      takeEvents rest h (s.wake (.arm .intake key number h.config.engine.debounce.ticks))

/-- Triggers all keys of the queue. -/
def dispatchAll : List String → Host → Stage → Stage
  | [], h, s => { s with host := some h }
  | _ :: rest, h, s =>
    match h.dispatch with
    | (h, none) => dispatchAll rest h s
    | (h, some key) => dispatchAll rest h (s.wake (.work key))

/-- Queues all records, and sets the alarm for the next time. -/
def resync (s : Stage) (h : Host) : Stage :=
  let (answer, world) := s.world.call .list
  let s := { s with world }
  let s := match answer with
    | .ok keys => s.enqueue h keys
    | .error _ => s
  match h.config.resyncInterval with
  | none => s
  | some period => { s with alarms := s.alarms.set (s.world.clock + period.ticks) .resync }

/-- A pass has ended: its permit goes on, its outcome is settled, and its worker ends or runs
another pass. -/
def finish (s : Stage) (h : Host) (key : String) (outcome : Except SyncError Action) : Stage :=
  let (dispatcher, granted) := h.dispatcher.giveBack
  let s := match granted with
    | none => s
    | some other => s.wake (.pass other)
  let (h, retry) := { h with dispatcher }.settle key outcome
  let s := match retry with
    | none => s
    | some (delay, number) => s.wake (.arm .requeue key number delay.ticks)
  let (dispatcher, again) := h.dispatcher.again key
  let s := { s with host := some { h with dispatcher } }
  if again then s.next (.work key) else s.wake .dispatch

/-- Lets a pass go on until it ends or has to wait. -/
def runPass (s : Stage) (h : Host) (key : String) (p : PassProgram) : Stage :=
  let (slice, world) := s.world.run h.intake.isPending p
  let s := { s with world }.deliver
  let h := s.host.getD h
  match slice with
  | .finished outcome => s.finish h key outcome
  | .waiting ticks resume =>
    { s with waitingPasses := s.waitingPasses.set key resume }.alarm ticks (.resume key)

def beginPass (s : Stage) (h : Host) (key : String) : Stage :=
  s.runPass h key ((h.engine knows).reconcile key)

/-- An alarm of a debouncer rings. -/
def ring (s : Stage) (which : Which) (key : String) (number : Nat) : Stage :=
  match which, s.host with
  | .gate, _ =>
    match s.world.gate.claim key number with
    | none => s
    | some gate => { s with world := { s.world with gate } }
  | .intake, some h =>
    let (h, queued) := h.intakeRings key number
    let s := { s with host := some h }
    if queued then s.wake .dispatch else s
  | .requeue, some h =>
    let (h, queued) := h.requeueRings key number
    let s := { s with host := some h }
    if queued then s.wake .dispatch else s
  | _, none => s

/-- A task of the host has its turn. -/
def hostTurn (s : Stage) (h : Host) : Task → Stage
  | .takeEvents => if h.stopping then s else takeEvents h.undelivered h s
  | .dispatch => if h.stopping then s else dispatchAll h.queue h s
  | .resync => if h.stopping then s else s.resync h
  | .work key =>
    let (dispatcher, permitted) := h.dispatcher.acquire key
    let h := { h with dispatcher }
    let s := { s with host := some h }
    if permitted then s.beginPass h key else s
  | .pass key => s.beginPass h key
  | .resume key =>
    match s.waitingPasses.get? key with
    | none => s
    | some resume =>
      let (world, p) := resume s.world
      { s with world, waitingPasses := s.waitingPasses.erase key }.runPass h key p
  | _ => s

/-- A task has its turn. -/
def turn (s : Stage) : Task → Stage
  | .main => s
  | .arm which key number ticks =>
    if ticks = 0 then s.ring which key number else s.alarm ticks (.ring which key number)
  | .ring which key number => s.ring which key number
  | t =>
    match s.host with
    | none => s
    | some h => s.hostTurn h t

/-- Lets everything go on that can, for at most so many turns. -/
def drain : Nat → Stage → Stage
  | 0, s => s
  | fuel + 1, s =>
    match s.deliver.line with
    | [] => s.deliver
    | t :: rest => drain fuel ({ s.deliver with line := rest }.turn t)

/-- Moves the clock to a time at which alarms ring. -/
def strike (time : Nat) (s : Stage) : Stage :=
  let due := s.alarms.alarms.filter (·.due = time)
  let later := s.alarms.alarms.filter (·.due ≠ time)
  { s with
    world := { s.world with clock := time }
    line := s.line ++ due.map (·.what)
    alarms := ⟨later⟩ }

/-- As many turns, and as many alarms, as anything on a stage can take. -/
def patience : Nat := 1000000

/-- Goes from alarm to alarm until a condition holds when nothing can go on. -/
def runUntil (stop : Stage → Bool) : Nat → Stage → Stage
  | 0, s => s
  | fuel + 1, s =>
    let s := s.drain patience
    if stop s then s
    else
      match s.alarms.next? with
      | none => s
      | some time => runUntil stop fuel (s.strike time)

/-- Goes from alarm to alarm until the main line's turn has come. -/
def untilMain : Nat → Stage → Stage
  | 0, s => s
  | fuel + 1, s =>
    let s := s.drain patience
    match s.alarms.next? with
    | none => s
    | some time =>
      let s := s.strike time
      if s.line.contains .main then { s with line := s.line.filter (· ≠ .main) }
      else untilMain fuel s

/-- The main line waits. -/
def pause (s : Stage) (ticks : Nat) : Stage :=
  if ticks = 0 then s else untilMain patience (s.alarm ticks .main)

/-- Lets everything happen that is due now. -/
def settle (s : Stage) : Stage := s.drain patience

/-- Lets an amount of time pass, and everything happen that is due then. -/
def advance (s : Stage) (ms : Nat) : Stage := (s.pause ms).settle

/-- Runs a program on the main line. -/
def perform : Program α → Stage → α × Stage
  | .done a, s => (a, s)
  | .ask (.store c) next, s =>
    let (answer, world) := s.world.call c
    perform (next answer) { s with world }
  | .ask .now next, s => perform (next s.world.now) s
  | .ask (.sleep d) next, s => perform (next ()) (s.pause d.ticks)
  | .ask (.coalescing key) next, s => perform (next (s.world.gate.isPending key)) s
  | .ask (.aggregate resourceType sources) next, s =>
    perform (next (World.aggregate resourceType sources)) s
  | .ask (.credentials reference) next, s =>
    let (answer, world) := s.world.credentials reference
    perform (next answer) { s with world }
  | .ask (.push resourceType scope c a) next, s =>
    let s := { s with world := s.world.logCall true resourceType scope c a }
    let s := s.pause s.world.script.pushMs
    let (answer, world) := s.world.finishPush resourceType a
    perform (next answer) { s with world }
  | .ask (.teardown resourceType scope c a) next, s =>
    let (answer, world) := s.world.teardown resourceType scope c a
    perform (next answer) { s with world }

/-- A request to the debouncer that holds back passes. -/
def holdBack (s : Stage) (key : String) (ms : Nat) : Stage :=
  let (gate, number) := s.world.gate.schedule key
  { s with world := { s.world with gate } }.wake (.arm .gate key number ms)

/-- Starts a host, which looks at all records. It does not hear of earlier events. -/
def startHost (s : Stage) (config : HostConfig) : Stage :=
  let world := { s.world with published := [] }
  { s with world, host := some (.start config) }.wake .resync

/-- Whether a task belongs to a host. -/
def ofHost : Task → Bool
  | .arm .gate .. => false
  | .ring .gate .. => false
  | .main => false
  | _ => true

/-- Stops the host, once its passes have ended; whether there was one. -/
def stopHost (s : Stage) : Stage × Bool :=
  match s.host with
  | none => (s, false)
  | some h =>
    let s := { s with host := some h.stop }
    let s := runUntil (fun s => s.host.all (·.dispatcher.idle)) patience s
    ({ s with
        host := none
        line := s.line.filter (!ofHost ·)
        alarms := ⟨s.alarms.alarms.filter (!ofHost ·.what)⟩ }, true)

/-- Lets changes of keys wait for quiet that come from outside of the store. -/
def coalesceAll : List String → Host → Stage → Stage
  | [], h, s => { s with host := some h }
  | key :: rest, h, s =>
    let (h, number) := h.coalesce key
    coalesceAll rest h (s.wake (.arm .intake key number h.config.engine.debounce.ticks))

/-- The host takes notice of changed record files. -/
def noticeFiles (s : Stage) (keys : List String) : Stage :=
  match s.host with
  | none => s
  | some h => (coalesceAll keys h s).settle

end Stage

end Tributary.Rehearsal
