import Mathlib.Logic.Function.Basic
import Mathlib.Tactic.Common

namespace ViciaDb

abbrev Pid := UInt32

inductive LockText where
  | pid (pid : Pid)
  | artifact
  deriving DecidableEq, Repr

inductive LockPhase where
  | linking (left : Nat)
  | reading (left : Nat)
  | judging (holder : LockText) (left : Nat)
  | removing (holder : LockText) (left : Nat)
  | holding
  | over
  deriving DecidableEq, Repr

structure LockState (ι : Type) where
  file : Option LockText
  phase : ι → LockPhase
  dead : Pid → Bool

inductive LockEvent (ι : Type) where
  | next (call : ι)
  | linkFails (call : ι)
  | drop (call : ι)
  | dies (pid : Pid)

def lockAttempts : Nat := 4

namespace LockState

variable {ι : Type} [DecidableEq ι] (owner : ι → Pid) (procfs : Bool)

def initial (file : Option LockText) : LockState ι := ⟨file, fun _ => .linking lockAttempts, fun _ => false⟩

def moveTo (state : LockState ι) (call : ι) (phase : LockPhase) : LockState ι :=
  { state with phase := Function.update state.phase call phase }

def isProcessAlive (state : LockState ι) (pid : Pid) : Bool :=
  if procfs then !state.dead pid else true

def blocks (state : LockState ι) (call : ι) : LockText → Bool
  | .pid pid => decide (pid ≠ owner call) && state.isProcessAlive procfs pid
  | .artifact => false

def next (state : LockState ι) (call : ι) : Option (LockState ι) :=
  match state.phase call with
  | .linking 0 => some (state.moveTo call .over)
  | .linking (left + 1) =>
    match state.file with
    | none => some { state.moveTo call .holding with file := some (.pid (owner call)) }
    | some _ => some (state.moveTo call (.reading left))
  -- a file that is gone by now reads as an empty text
  | .reading left => some (state.moveTo call (.judging (state.file.getD .artifact) left))
  | .judging holder left =>
    if state.blocks owner procfs call holder then some (state.moveTo call .over)
    else some (state.moveTo call (.removing holder left))
  | .removing _ left => some { state.moveTo call (.linking left) with file := none }
  | .holding => none
  | .over => none

def step (state : LockState ι) : LockEvent ι → Option (LockState ι)
  | .next call => if state.dead (owner call) then none else state.next owner procfs call
  | .linkFails call =>
    match state.dead (owner call), state.phase call with
    | false, .linking (_ + 1) => some (state.moveTo call .over)
    | _, _ => none
  | .drop call =>
    match state.dead (owner call), state.phase call with
    | false, .holding => some { state.moveTo call .over with file := none }
    | _, _ => none
  | .dies pid => some { state with dead := Function.update state.dead pid true }

def run (state : LockState ι) (events : List (LockEvent ι)) : Option (LockState ι) :=
  events.foldlM (step owner procfs) state

def Holds (state : LockState ι) (call : ι) : Prop :=
  state.phase call = .holding ∧ state.dead (owner call) = false

structure Safe (state : LockState ι) : Prop where
  exclusive : ∀ a b, state.Holds owner a → state.Holds owner b → owner a = owner b
  intact : ∀ a, state.Holds owner a → state.file = some (.pid (owner a))

/-- The lock file a call is about to remove is still the one it read, and not that of a handle its
    own process has open. -/
def Unchanged (state : LockState ι) : LockEvent ι → Prop
  | .next call => ∀ holder left, state.phase call = .removing holder left →
      (∀ text, state.file = some text → text = holder) ∧
        ∀ other, state.Holds owner other → owner other ≠ owner call
  | _ => True

def CarefulRun (state : LockState ι) : List (LockEvent ι) → Prop
  | [] => True
  | event :: events => state.Unchanged owner event ∧
      ∀ after, state.step owner procfs event = some after → after.CarefulRun events

section Safety

variable {owner : ι → Pid} {procfs : Bool} {state after : LockState ι}

structure Orderly (owner : ι → Pid) (state : LockState ι) : Prop where
  single : ∀ a b, state.Holds owner a → state.Holds owner b → a = b
  intact : ∀ a, state.Holds owner a → state.file = some (.pid (owner a))
  stale : ∀ a pid left, state.phase a = .removing (.pid pid) left → pid = owner a ∨ state.dead pid = true

omit [DecidableEq ι] in
theorem Orderly.safe (orderly : state.Orderly owner) : state.Safe owner :=
  ⟨fun a b holdsA holdsB => congrArg owner (orderly.single a b holdsA holdsB), orderly.intact⟩

omit [DecidableEq ι] in
theorem orderly_initial (file : Option LockText) : (initial file : LockState ι).Orderly owner :=
  ⟨fun _ _ holds => (nomatch holds.1), fun _ holds => (nomatch holds.1), fun _ _ _ removing => (nomatch removing)⟩

theorem moveTo_self (state : LockState ι) (call : ι) (phase : LockPhase) : (state.moveTo call phase).phase call = phase :=
  Function.update_self ..

theorem moveTo_other {call other : ι} (different : other ≠ call) (phase : LockPhase) :
    (state.moveTo call phase).phase other = state.phase other :=
  Function.update_of_ne different ..

variable {phase : LockPhase}

theorem holds_of_moveTo {call other : ι} (waits : phase ≠ .holding)
    (holds : (state.moveTo call phase).Holds owner other) : state.Holds owner other := by
  obtain ⟨held, lives⟩ := holds
  by_cases same : other = call
  · subst other
    rw [moveTo_self] at held
    exact absurd held waits
  · exact ⟨by rwa [moveTo_other same] at held, lives⟩

variable (orderly : state.Orderly owner) {call : ι}

include orderly in
theorem stale_moveTo
    (judged : ∀ pid left, phase = .removing (.pid pid) left → pid = owner call ∨ state.dead pid = true) :
    ∀ a pid left, (state.moveTo call phase).phase a = .removing (.pid pid) left →
      pid = owner a ∨ state.dead pid = true := by
  intro a pid left removing
  by_cases same : a = call
  · subst a
    rw [moveTo_self] at removing
    exact judged pid left removing
  · rw [moveTo_other same] at removing
    exact orderly.stale a pid left removing

include orderly in
theorem Orderly.moveTo (waits : phase ≠ .holding)
    (judged : ∀ pid left, phase = .removing (.pid pid) left → pid = owner call ∨ state.dead pid = true) :
    (state.moveTo call phase).Orderly owner :=
  ⟨fun a b holdsA holdsB => orderly.single a b (holds_of_moveTo waits holdsA) (holds_of_moveTo waits holdsB),
    fun a holds => orderly.intact a (holds_of_moveTo waits holds), stale_moveTo orderly judged⟩

include orderly in
theorem Orderly.remove (waits : phase ≠ .holding)
    (judged : ∀ pid left, phase = .removing (.pid pid) left → pid = owner call ∨ state.dead pid = true)
    (free : ∀ a, a ≠ call → ¬ state.Holds owner a) :
    { state.moveTo call phase with file := none }.Orderly owner := by
  have none_ : ∀ a, ¬ { state.moveTo call phase with file := none }.Holds owner a := by
    intro a holds
    by_cases same : a = call
    · subst a
      exact waits ((moveTo_self state call phase).symm.trans holds.1)
    · exact free a same (holds_of_moveTo waits holds)
  exact ⟨fun a _ holds => absurd holds (none_ a), fun a holds => absurd holds (none_ a), stale_moveTo orderly judged⟩

include orderly in
theorem Orderly.link (missing : state.file = none) :
    { state.moveTo call .holding with file := some (.pid (owner call)) }.Orderly owner := by
  have only : ∀ a, { state.moveTo call .holding with file := some (.pid (owner call)) }.Holds owner a → a = call := by
    intro a holds
    by_contra different
    have held : state.Holds owner a := ⟨(moveTo_other different _).symm.trans holds.1, holds.2⟩
    have present := orderly.intact a held
    rw [missing] at present
    cases present
  refine ⟨fun a b holdsA holdsB => (only a holdsA).trans (only b holdsB).symm, fun a holds => ?_, ?_⟩
  · rw [only a holds]
  · exact stale_moveTo orderly fun _ _ impossible => nomatch impossible

omit [DecidableEq ι] in
theorem Orderly.free (orderly : state.Orderly owner) {holder : LockText} {left : Nat}
    (removing : state.phase call = .removing holder left) (unchanged : state.Unchanged owner (.next call)) (a : ι) :
    ¬ state.Holds owner a := by
  intro holds
  obtain ⟨found, foreign⟩ := unchanged holder left removing
  have text := found _ (orderly.intact a holds)
  subst holder
  rcases orderly.stale call (owner a) left removing with own | gone
  · exact foreign a holds own
  · rw [holds.2] at gone
    cases gone

include orderly in
theorem Orderly.next (unchanged : state.Unchanged owner (.next call))
    (stepped : state.next owner procfs call = some after) : after.Orderly owner := by
  unfold LockState.next at stepped
  split at stepped
  · cases stepped
    exact orderly.moveTo nofun nofun
  · split at stepped
    · cases stepped
      rename_i missing
      exact orderly.link missing
    · cases stepped
      exact orderly.moveTo nofun nofun
  · cases stepped
    exact orderly.moveTo nofun nofun
  · rename_i holder left _
    split at stepped
    · cases stepped
      exact orderly.moveTo nofun nofun
    rename_i passes
    cases stepped
    refine orderly.moveTo nofun ?_
    rintro pid _ ⟨⟩
    -- neither another live process, so its own number or a dead one
    by_cases own : pid = owner call
    · exact .inl own
    right
    have quiet : state.isProcessAlive procfs pid = false := by
      simpa [blocks, own] using passes
    unfold isProcessAlive at quiet
    split at quiet
    · simpa using quiet
    · cases quiet
  · rename_i holder left removing
    cases stepped
    exact orderly.remove nofun nofun fun a _ => orderly.free removing unchanged a
  · cases stepped
  · cases stepped

include orderly in
theorem Orderly.step {event : LockEvent ι} (unchanged : state.Unchanged owner event)
    (stepped : state.step owner procfs event = some after) : after.Orderly owner := by
  cases event with
  | next call =>
    simp only [LockState.step] at stepped
    split at stepped
    · cases stepped
    · exact orderly.next unchanged stepped
  | linkFails call =>
    simp only [LockState.step] at stepped
    split at stepped
    · cases stepped
      exact orderly.moveTo nofun nofun
    · cases stepped
  | drop call =>
    simp only [LockState.step] at stepped
    split at stepped
    · rename_i lives held
      cases stepped
      refine orderly.remove nofun nofun fun a different holds => different ?_
      exact orderly.single a call holds ⟨held, lives⟩
    · cases stepped
  | dies pid =>
    cases stepped
    have lived : ∀ {a}, { state with dead := Function.update state.dead pid true }.Holds owner a →
        state.Holds owner a := by
      rintro a ⟨held, lives⟩
      refine ⟨held, ?_⟩
      by_cases same : owner a = pid
      · simp [same] at lives
      · simpa [same] using lives
    refine ⟨fun a b holdsA holdsB => orderly.single a b (lived holdsA) (lived holdsB),
      fun a holds => orderly.intact a (lived holds), fun a other left removing => ?_⟩
    refine (orderly.stale a other left removing).imp_right fun gone => ?_
    by_cases same : other = pid
    · simp [same]
    · simpa [same] using gone

variable {events : List (LockEvent ι)}

include orderly in
theorem Orderly.run (careful : state.CarefulRun owner procfs events) (ran : state.run owner procfs events = some after) :
    after.Orderly owner := by
  induction events generalizing state with
  | nil =>
    cases ran
    exact orderly
  | cons event events ih =>
    obtain ⟨unchanged, rest⟩ := careful
    obtain ⟨middle, stepped, ran⟩ := Option.bind_eq_some_iff.mp ran
    exact ih (orderly.step unchanged stepped) (rest middle stepped) ran

theorem CarefulRun.cons {event : LockEvent ι} (unchanged : state.Unchanged owner event)
    (stepped : state.step owner procfs event = some after) (rest : after.CarefulRun owner procfs events) :
    state.CarefulRun owner procfs (event :: events) := by
  refine ⟨unchanged, fun _ known => ?_⟩
  cases stepped.symm.trans known
  exact rest

/-- A run in which every removal finds the lock file it has read leaves one live holder at most, with its
    own lock file in place. -/
theorem carefulRun_safe {file : Option LockText} {events : List (LockEvent ι)}
    (careful : (initial file).CarefulRun owner procfs events)
    (ran : (initial file).run owner procfs events = some after) : after.Safe owner :=
  ((orderly_initial file).run careful ran).safe

end Safety

section Example

def threeOwners (call : Fin 3) : Pid := UInt32.ofNat (call.val + 1)

/-- Two processes find the file of a dead one. The second removes the file of the first. -/
def staleRace : List (LockEvent (Fin 3)) :=
  .dies 9 :: [.next 0, .next 0, .next 0, .next 1, .next 1, .next 1, .next 0, .next 0, .next 1, .next 1]

/-- Nobody dies: a lock is released between the failed link and the reading of its holder. -/
def releaseRace : List (LockEvent (Fin 3)) :=
  [.next 0, .next 1, .drop 0, .next 1, .next 2, .next 1, .next 1, .next 1]

theorem two_processes_hold :
    (∃ after, (initial (some (.pid 9))).run threeOwners true staleRace = some after ∧
      after.Holds threeOwners 0 ∧ after.Holds threeOwners 1 ∧ ¬ after.Safe threeOwners) ∧
    ∃ after, (initial none).run threeOwners true releaseRace = some after ∧
      after.Holds threeOwners 2 ∧ after.Holds threeOwners 1 ∧ ¬ after.Safe threeOwners := by
  refine ⟨⟨_, rfl, ⟨rfl, rfl⟩, ⟨rfl, rfl⟩, fun safe => ?_⟩, _, rfl, ⟨rfl, rfl⟩, ⟨rfl, rfl⟩, fun safe => ?_⟩
  · exact absurd (safe.exclusive 0 1 ⟨rfl, rfl⟩ ⟨rfl, rfl⟩) (by decide)
  · exact absurd (safe.exclusive 2 1 ⟨rfl, rfl⟩ ⟨rfl, rfl⟩) (by decide)

def recovery : List (LockEvent (Fin 3)) :=
  .dies 9 :: [.next 0, .next 0, .next 0, .next 0, .next 0, .next 1, .next 1, .next 1]

theorem recovery_careful : (initial (some (.pid 9))).CarefulRun threeOwners true recovery := by
  refine .cons trivial rfl (.cons ?_ rfl (.cons ?_ rfl (.cons ?_ rfl (.cons ?_ rfl (.cons ?_ rfl
    (.cons ?_ rfl (.cons ?_ rfl (.cons ?_ rfl trivial))))))))
  case refine_4 =>
    rintro _ _ ⟨⟩
    refine ⟨fun text present => (Option.some.inj present).symm, fun other holds => ?_⟩
    match other with
    | 0 => exact nomatch holds.1
    | 1 => exact nomatch holds.1
    | 2 => exact nomatch holds.1
  all_goals exact fun _ _ removing => nomatch removing

theorem carefulRun_safe_recovery :
    ∃ after, (initial (some (.pid 9))).run threeOwners true recovery = some after ∧
      after.Holds threeOwners 0 ∧ after.Safe threeOwners :=
  ⟨_, rfl, ⟨rfl, rfl⟩, carefulRun_safe recovery_careful rfl⟩

end Example

end LockState

end ViciaDb
