import DocLint.Proofs.Run.Streams
import DocLint.Proofs.Run.Waiting
import Mathlib.Algebra.BigOperators.Group.Finset.Basic
import Mathlib.Algebra.Order.BigOperators.Group.Finset
import Mathlib.Data.Fintype.Basic
import Mathlib.Data.Multiset.Defs

/-!
# Runs that share rules

Several runs may share one switchboard: each of them launches, which nothing interrupts, and then waits,
and in between any of the others may do the same. A `Session` is the state of all of them. The ledgers of
all runs are on the switchboard, as are the listeners of their rules, which the run that launched last has
made its own. Yet a run that launches tells no listener but its own (`launch_runs_other`) and a run that
waits writes to its own ledger only, so every run returns what it would return alone
(`Session.runs_as_alone`).
-/
namespace DocLint
open Relation

namespace Switchboard
variable {b : Switchboard} {run other : Nat}

/-- A notice that reaches a run leaves the others. -/
theorem notify_runs_other {rule : Rule} (node : GivenNode)
    (attached : b.listeners.lookup rule.name = some (.lint run)) (apart : other ≠ run) :
    (b.notify rule node).1.runs[other]? = b.runs[other]? := by
  cases present : b.runs[run]? with
  | none => simp [notify, attached, lintFor, present]
  | some l =>
    simp only [notify, attached, lintFor, present]
    exact Array.getElem?_setIfInBounds_ne apart.symm

/-- Notices that reach a run leave the others. -/
theorem deliver_runs_other (notices : List (Rule × GivenNode))
    (attached : ∀ t ∈ notices, b.listeners.lookup t.1.name = some (.lint run))
    (apart : other ≠ run) : (b.deliver notices).1.runs[other]? = b.runs[other]? := by
  induction notices generalizing b with
  | nil => rfl
  | cons notice rest ih =>
    obtain ⟨rule, node⟩ := notice
    have kept := (notify_effects b rule node).1
    have others := ih (b := (b.notify rule node).1) fun t member => by
      rw [kept]
      exact attached t (List.mem_cons_of_mem _ member)
    exact others.trans (notify_runs_other node (attached (rule, node) List.mem_cons_self) apart)

/-- A run that launches leaves the ledgers of the others, though it takes over the rules that they
share. -/
theorem launch_runs_other (b : Switchboard) (q : RunRequest) (l : Ledger)
    (apart : other ≠ b.runs.size) : (b.launch q l).1.runs[other]? = b.runs[other]? := by
  have walks : ((b.addRun l).walkFor b.runs.size q.context.inventory q.buckets).1.runs[other]? =
      (b.addRun l).runs[other]? := by
    rw [walkFor_board, deliver_runs_other _ (fun t told => lookup_of_mem_walked _ _ told) apart,
      runs_attachAll]
  have added : (b.addRun l).runs[other]? = b.runs[other]? := by
    simp [addRun, Array.getElem?_push, apart]
  rw [launch]
  exact (Array.getElem?_setIfInBounds_ne apart.symm).trans (walks.trans added)

end Switchboard

/-- How far a run has come. -/
inductive Stage where
  /-- It has not started. -/
  | ahead
  /-- It could not read its declarations. -/
  | refused (failure : Failure)
  /-- It has launched, and waits for its checks or has returned. Its ledger is on the switchboard under a
  number. -/
  | launched (number : Nat) (phase : Wait.Phase) (answered : List Nat) (log : List LogEntry)

namespace Stage

/-- The number of a run that has launched. -/
def number? : Stage → Option Nat
  | .launched number _ _ _ => some number
  | _ => none

/-- What the stage of a run has to do with its request: a run that has launched waits for the checks of
its plan. -/
def Stands (b : Switchboard) (q : RunRequest) : Stage → Prop
  | .ahead => True
  | .refused failure => q.opening.2 = .error failure
  | .launched number phase answered log =>
    ∃ suppressions l, q.Suppresses suppressions ∧ b.runs[number]? = some l ∧
      Wait.Reaches (q.unsettled suppressions) ⟨l, phase, answered, log⟩

variable {b b' : Switchboard} {q : RunRequest} {stage : Stage}

/-- Where a run stands depends on its own ledger only. -/
theorem Stands.congr (stands : Stands b q stage)
    (same : ∀ number, stage.number? = some number → b'.runs[number]? = b.runs[number]?) :
    Stands b' q stage := by
  cases stage with
  | ahead => trivial
  | refused failure => exact stands
  | launched number phase answered log =>
    obtain ⟨suppressions, l, suppressed, present, reached⟩ := stands
    exact ⟨suppressions, l, suppressed, (same number rfl).trans present, reached⟩

/-- The number of a run that has launched is that of a ledger. -/
theorem Stands.number_lt (stands : Stands b q stage) {number : Nat}
    (numbered : stage.number? = some number) : number < b.runs.size := by
  cases stage with
  | ahead => cases numbered
  | refused failure => cases numbered
  | launched own phase answered log =>
    cases numbered
    obtain ⟨_, _, _, present, _⟩ := stands
    exact (Array.getElem?_eq_some_iff.mp present).1

/-- The steps that a run has left at most: those of its wait, and one before it. -/
def remaining (b : Switchboard) (q : RunRequest) : Stage → Nat
  | .ahead =>
    match q.opening.2 with
    | .error _ => 1
    | .ok l =>
      ((Switchboard.empty.launch q l).1.runs[0]?.elim 0 fun l => (Wait.start l).remaining) + 1
  | .refused _ => 0
  | .launched number phase answered log =>
    b.runs[number]?.elim 0 fun l => Wait.remaining ⟨l, phase, answered, log⟩

theorem remaining_congr
    (same : ∀ number, stage.number? = some number → b'.runs[number]? = b.runs[number]?) :
    stage.remaining b' q = stage.remaining b q := by
  cases stage with
  | launched number phase answered log => simp only [remaining, same number rfl]
  | _ => rfl

end Stage

/-- The state of runs that share a switchboard. -/
structure Session (ι : Type) where
  board : Switchboard
  stages : ι → Stage

namespace Session
variable {ι : Type}

/-- The state before any run has started. -/
def start (ι : Type) (b : Switchboard) : Session ι :=
  ⟨b, fun _ => .ahead⟩

/-- What a run has returned or raised, once it has. -/
def result? (s : Session ι) (i : ι) : Option (Except Failure (List Diagnostic)) :=
  match s.stages i with
  | .refused failure => some (.error failure)
  | .launched number .returned _ _ => s.board.runs[number]?.map fun l => .ok l.diagnostics
  | _ => none

/-- What holds all through a session. -/
structure Sound (requests : ι → RunRequest) (s : Session ι) : Prop where
  stands : ∀ i, (s.stages i).Stands s.board (requests i)
  /-- No two runs have the same ledger. -/
  apart : ∀ i j number, (s.stages i).number? = some number → (s.stages j).number? = some number → i = j

variable {requests : ι → RunRequest} {b : Switchboard} {s next : Session ι} {i : ι}

theorem sound_start (requests : ι → RunRequest) (b : Switchboard) : Sound requests (start ι b) where
  stands _ := trivial
  apart _ _ _ numbered := nomatch numbered

/-- What a run has returned or raised is what it returns or raises alone, up to the order of the
diagnostics. -/
theorem Sound.result (sound : Sound requests s) {result : Except Failure (List Diagnostic)}
    (ended : s.result? i = some result) (schedule : Schedule) :
    result.map Multiset.ofList =
      (Switchboard.empty.runBy schedule (requests i)).2.result.map Multiset.ofList := by
  have stands := sound.stands i
  unfold result? at ended
  split at ended
  case h_1 failure refused =>
    rw [refused] at stands
    cases ended
    rw [Switchboard.runBy_of_error _ _ stands]
    rfl
  case h_2 number answered log launched =>
    rw [launched] at stands
    obtain ⟨suppressions, l, suppressed, present, reached⟩ := stands
    rw [present] at ended
    obtain ⟨own, settled⟩ := Wait.exists_schedule rfl reached rfl
    have left : (requests i).left own suppressions = l := congrArg Prod.fst settled
    have perm := (RunRequest.left_entries_perm (requests i) own suppressions).trans
      (RunRequest.left_entries_perm (requests i) schedule suppressions).symm
    cases ended
    rw [RunRequest.runBy_result _ schedule suppressed, ← left]
    exact congrArg Except.ok (Multiset.coe_eq_coe.mpr (perm.map Entry.diagnostic))
  case h_3 => cases ended

/-- A run that has returned has the diagnostics of its ledger. -/
theorem result?_of_returned {number : Nat} {w : Wait}
    (here : s.stages i = .launched number w.phase w.answered w.log)
    (present : s.board.runs[number]? = some w.ledger) (returned : w.phase = .returned) :
    s.result? i = some (.ok w.ledger.diagnostics) := by
  simp only [result?, here, returned, present, Option.map_some]

section
variable [DecidableEq ι]

/-- The state after a run has launched. -/
def launching (s : Session ι) (i : ι) (q : RunRequest) (l : Ledger) : Session ι where
  board := (s.board.launch q l).1
  stages := Function.update s.stages i (.launched s.board.runs.size .looking [] [])

/-- The state after a step of the wait of a run. -/
def onward (s : Session ι) (i : ι) (number : Nat) (w : Wait) : Session ι where
  board := { s.board with runs := s.board.runs.setIfInBounds number w.ledger }
  stages := Function.update s.stages i (.launched number w.phase w.answered w.log)

theorem launching_stages (s : Session ι) (i : ι) (q : RunRequest) (l : Ledger) :
    (s.launching i q l).stages i = .launched s.board.runs.size .looking [] [] :=
  Function.update_self _ _ _

theorem launching_runs (s : Session ι) (i : ι) (q : RunRequest) (suppressions : Suppressions) :
    (s.launching i q (q.opened suppressions)).board.runs[s.board.runs.size]? =
      some (q.unsettled suppressions) :=
  q.launch_runs s.board suppressions

theorem onward_stages (s : Session ι) (i : ι) (number : Nat) (w : Wait) :
    (s.onward i number w).stages i = .launched number w.phase w.answered w.log :=
  Function.update_self _ _ _

theorem onward_runs {number : Nat} (present : number < s.board.runs.size) (i : ι) (w : Wait) :
    (s.onward i number w).board.runs[number]? = some w.ledger :=
  Array.getElem?_setIfInBounds_self_of_lt present

/-- What a run does next. -/
inductive Step (requests : ι → RunRequest) (i : ι) : Session ι → Session ι → Prop
  /-- It starts and fails, as its declarations are illegible. -/
  | refuse {s : Session ι} {failure : Failure} (ahead : s.stages i = .ahead)
      (illegible : (requests i).opening.2 = .error failure) :
      Step requests i s { s with stages := Function.update s.stages i (.refused failure) }
  /-- It starts and lints its nodes. -/
  | launch {s : Session ι} {l : Ledger} (ahead : s.stages i = .ahead)
      (begins : (requests i).opening.2 = .ok l) :
      Step requests i s (s.launching i (requests i) l)
  /-- It waits, or one of its checks answers. -/
  | wait {s : Session ι} {number : Nat} {w next : Wait}
      (here : s.stages i = .launched number w.phase w.answered w.log)
      (present : s.board.runs[number]? = some w.ledger) (step : Wait.Step w next) :
      Step requests i s (s.onward i number next)

/-- Some run goes on. -/
def Moves (requests : ι → RunRequest) (s next : Session ι) : Prop :=
  ∃ i, Step requests i s next

/-- The states that runs can come to which start on a switchboard, in any order of their steps. -/
def Reaches (requests : ι → RunRequest) (b : Switchboard) (s : Session ι) : Prop :=
  ReflTransGen (Moves requests) (start ι b) s

/-- A step of a run leaves the others as they are and does not touch their ledgers. -/
theorem Sound.others (sound : Sound requests s) (step : Step requests i s next) {j : ι}
    (other : j ≠ i) : next.stages j = s.stages j ∧
      ∀ number, (s.stages j).number? = some number →
        next.board.runs[number]? = s.board.runs[number]? := by
  cases step with
  | refuse ahead illegible => exact ⟨Function.update_of_ne other _ _, fun _ _ => rfl⟩
  | launch ahead begins =>
    refine ⟨Function.update_of_ne other _ _, fun number numbered => ?_⟩
    exact s.board.launch_runs_other _ _ ((sound.stands j).number_lt numbered).ne
  | wait here present step =>
    refine ⟨Function.update_of_ne other _ _, fun number numbered => ?_⟩
    refine Array.getElem?_setIfInBounds_ne ?_
    rintro rfl
    exact other (sound.apart j i _ numbered (by rw [here]; rfl))

/-- A run goes on as its request has it, in a ledger that nobody else has, and comes nearer to its end. -/
theorem Sound.own (sound : Sound requests s) (step : Step requests i s next) :
    (next.stages i).Stands next.board (requests i) ∧
      (next.stages i).remaining next.board (requests i) <
        (s.stages i).remaining s.board (requests i) ∧
      ∀ number, (next.stages i).number? = some number →
        (s.stages i).number? = some number ∨ number = s.board.runs.size := by
  have stands := sound.stands i
  cases step with
  | refuse ahead illegible =>
    simp [ahead, Stage.Stands, Stage.remaining, Stage.number?, illegible]
  | launch ahead begins =>
    obtain ⟨suppressions, suppressed⟩ := RunRequest.suppresses_of_opening begins
    obtain rfl := Except.ok.inj ((RunRequest.opening_ok suppressed).symm.trans begins)
    have present := s.launching_runs i (requests i) suppressions
    have alone : (Switchboard.empty.launch (requests i) _).1.runs[0]? = _ :=
      RunRequest.launch_runs .empty (requests i) suppressions
    simp only [launching_stages, ahead, Stage.remaining, begins, present, alone]
    exact ⟨⟨suppressions, _, suppressed, present, .refl⟩, Nat.lt_succ_self _,
      fun number fresh => .inr (Option.some.inj fresh).symm⟩
  | @wait number w onward here present step =>
    rw [here] at stands
    obtain ⟨suppressions, l, suppressed, present', reached⟩ := stands
    obtain rfl := Option.some.inj (present.symm.trans present')
    obtain ⟨bound, _⟩ := Array.getElem?_eq_some_iff.mp present
    have written := onward_runs bound i onward
    simp only [onward_stages, here, Stage.remaining, written, present]
    exact ⟨⟨suppressions, _, suppressed, written, reached.tail step⟩, step.remaining_lt,
      fun number' numbered => .inl numbered⟩

/-- What holds all through a session is kept by each step of each run. -/
theorem Sound.step (sound : Sound requests s) (step : Step requests i s next) :
    Sound requests next := by
  obtain ⟨stands, _, number⟩ := sound.own step
  have others := fun j => @sound.others _ _ _ _ _ _ step j
  have distinct : ∀ j ≠ i, ∀ n, (next.stages i).number? = some n →
      (next.stages j).number? ≠ some n := by
    intro j other n mine numbered
    rw [(others j other).1] at numbered
    rcases number n mine with before | fresh
    · exact other (sound.apart j i n numbered before)
    · exact ((sound.stands j).number_lt numbered).ne fresh
  refine ⟨fun j => ?_, fun j k n numbered numbered' => ?_⟩
  · by_cases same : j = i
    · exact same ▸ stands
    · rw [(others j same).1]
      exact (sound.stands j).congr (others j same).2
  · by_cases first : j = i <;> by_cases second : k = i
    · rw [first, second]
    · exact absurd numbered' (distinct k second n (first ▸ numbered))
    · exact absurd numbered (distinct j first n (second ▸ numbered'))
    · rw [(others j first).1] at numbered
      rw [(others k second).1] at numbered'
      exact sound.apart j k n numbered numbered'

/-- What holds all through a session holds in every state that it comes to. -/
theorem sound_of_reaches (reached : Reaches requests b s) : Sound requests s := by
  induction reached with
  | refl => exact sound_start requests b
  | tail _ step ih =>
    obtain ⟨_, step⟩ := step
    exact ih.step step

/-- A run that has not ended can go on, or one of its own checks is yet to answer: no run waits for
another. -/
theorem Sound.exists_step (sound : Sound requests s) (waits : s.result? i = none) :
    ∃ next, Step requests i s next := by
  have stands := sound.stands i
  cases here : s.stages i with
  | ahead =>
    cases begins : (requests i).opening.2 with
    | error failure => exact ⟨_, .refuse here begins⟩
    | ok l => exact ⟨_, .launch here begins⟩
  | refused failure => simp [result?, here] at waits
  | launched number phase answered log =>
    rw [here] at stands
    obtain ⟨suppressions, l, _, present, reached⟩ := stands
    have unended : phase ≠ .returned := by
      rintro rfl
      simp [result?, here, present] at waits
    obtain ⟨w, step⟩ := Wait.exists_step rfl reached unended
    exact ⟨_, .wait here present step⟩

/-- No session goes on for ever. -/
theorem Sound.acc [Fintype ι] (sound : Sound requests s) :
    Acc (fun next s => Moves requests s next) s := by
  induction left : ∑ j, (s.stages j).remaining s.board (requests j) using Nat.strong_induction_on
    generalizing s with
  | _ n ih =>
    refine .intro s fun next ⟨i, step⟩ => ih _ ?_ (sound.step step) rfl
    have nearer := (sound.own step).2.1
    rw [← left]
    refine Finset.sum_lt_sum (fun j _ => ?_) ⟨i, Finset.mem_univ i, nearer⟩
    by_cases same : j = i
    · exact same ▸ nearer.le
    · obtain ⟨stage, runs⟩ := sound.others step same
      rw [stage, Stage.remaining_congr runs]

/-- A run can wait without another coming in between. -/
theorem reaches_onward {number : Nat} {l : Ledger} {w : Wait}
    (here : s.stages i = .launched number .looking [] []) (present : s.board.runs[number]? = some l)
    (waits : Wait.Reaches l w) :
    ReflTransGen (Moves requests) s (s.onward i number w) := by
  obtain ⟨bound, value⟩ := Array.getElem?_eq_some_iff.mp present
  induction waits with
  | refl =>
    have written : s.board.runs.setIfInBounds number l = s.board.runs := by
      rw [← value, Array.setIfInBounds_def, dif_pos bound, Array.set_getElem_self]
    have unchanged : s.onward i number (Wait.start l) = s := by
      simp [onward, Wait.start, written, ← here]
    rw [unchanged]
  | @tail between last _ step ih =>
    have same : (s.onward i number between).onward i number last = s.onward i number last := by
      simp [onward]
    rw [← same]
    exact ih.tail ⟨i, .wait (s.onward_stages i number between) (onward_runs bound i between) step⟩

/-- A run that is not interrupted leaves what it leaves when it runs by itself on the same switchboard. -/
theorem exists_runBy (ahead : s.stages i = .ahead) (schedule : Schedule) :
    ∃ next, ReflTransGen (Moves requests) s next ∧
      next.board = (s.board.runBy schedule (requests i)).1 ∧
      next.result? i = some (s.board.runBy schedule (requests i)).2.result ∧
      ∀ j ≠ i, next.stages j = s.stages j := by
  cases begins : (requests i).opening.2 with
  | error failure =>
    rw [Switchboard.runBy_of_error _ _ begins]
    refine ⟨_, .single ⟨i, .refuse ahead begins⟩, rfl, ?_, fun j other => Function.update_of_ne other _ _⟩
    simp only [result?, Function.update_self]
    rfl
  | ok l =>
    obtain ⟨suppressions, suppressed⟩ := RunRequest.suppresses_of_opening begins
    obtain rfl := Except.ok.inj ((RunRequest.opening_ok suppressed).symm.trans begins)
    have present := s.launching_runs i (requests i) suppressions
    obtain ⟨bound, _⟩ := Array.getElem?_eq_some_iff.mp present
    obtain ⟨w, reached, returned, settled⟩ :=
      Wait.exists_of_schedule (l := (requests i).unsettled suppressions) rfl schedule
    have waits := @reaches_onward _ requests _ i _ _ _ w (launching_stages _ _ _ _) present reached
    have run := s.board.runBy_eq_launch schedule begins
    simp only [RunRequest.launch_runs, Option.getD_some, settled] at run
    rw [run]
    refine ⟨_, waits.head ⟨i, .launch ahead begins⟩, rfl,
      result?_of_returned (onward_stages _ _ _ _) (onward_runs bound _ _) returned, fun j other => ?_⟩
    exact (Function.update_of_ne other _ _).trans (Function.update_of_ne other _ _)

/-- Two runs can overlap: both launch before either of them returns. -/
theorem exists_overlap {j : ι} (other : j ≠ i) (ahead : s.stages i = .ahead)
    (ahead' : s.stages j = .ahead) {suppressions suppressions' : Suppressions}
    (suppressed : (requests i).Suppresses suppressions)
    (suppressed' : (requests j).Suppresses suppressions') :
    ∃ last found found', ReflTransGen (Moves requests) s last ∧
      last.result? i = some (.ok found) ∧ last.result? j = some (.ok found') := by
  let first := s.launching i (requests i) ((requests i).opened suppressions)
  let both := first.launching j (requests j) ((requests j).opened suppressions')
  have launches : Step requests i s first := .launch ahead (RunRequest.opening_ok suppressed)
  have launches' : Step requests j first both :=
    .launch ((Function.update_of_ne other _ _).trans ahead') (RunRequest.opening_ok suppressed')
  have present := s.launching_runs i (requests i) suppressions
  have present' := first.launching_runs j (requests j) suppressions'
  obtain ⟨bound, _⟩ := Array.getElem?_eq_some_iff.mp present
  obtain ⟨bound', _⟩ := Array.getElem?_eq_some_iff.mp present'
  have kept := (first.board.launch_runs_other (requests j) ((requests j).opened suppressions')
    bound.ne).trans present
  obtain ⟨w, reached, returned, _⟩ := Wait.exists_of_schedule
    (l := (requests i).unsettled suppressions) rfl .byTurns
  obtain ⟨w', reached', returned', _⟩ := Wait.exists_of_schedule
    (l := (requests j).unsettled suppressions') rfl .byTurns
  have here : both.stages i = .launched s.board.runs.size .looking [] [] :=
    (Function.update_of_ne other.symm _ _).trans (launching_stages _ _ _ _)
  let waited := both.onward j first.board.runs.size w'
  have waits' := @reaches_onward _ requests both j _ _ _ w' (launching_stages _ _ _ _) present' reached'
  have here' : waited.stages i = .launched s.board.runs.size .looking [] [] :=
    (Function.update_of_ne other.symm _ _).trans here
  have kept' : waited.board.runs[s.board.runs.size]? = _ :=
    (Array.getElem?_setIfInBounds_ne bound.ne').trans kept
  obtain ⟨bound'', _⟩ := Array.getElem?_eq_some_iff.mp kept'
  have waits := @reaches_onward _ requests waited i _ _ _ w here' kept' reached
  refine ⟨_, w.ledger.diagnostics, w'.ledger.diagnostics,
    ((waits'.trans waits).head ⟨j, launches'⟩).head ⟨i, launches⟩, ?_, ?_⟩
  · exact result?_of_returned (onward_stages _ _ _ _) (onward_runs bound'' _ _) returned
  · exact result?_of_returned ((Function.update_of_ne other _ _).trans (onward_stages _ _ _ _))
      ((Array.getElem?_setIfInBounds_ne bound.ne).trans (onward_runs bound' _ _)) returned'

/-- Runs that share rules and a switchboard return what each of them returns alone with rules that nobody
else uses, whatever was attached to the rules before and in whatever order the runs start, go on and see
their checks answer: the same diagnostics as often, or the same failure. All of them come to an end, as no
run waits for another and none goes on for ever. Running by turns is one of these orders. -/
theorem runs_as_alone [Fintype ι] (requests : ι → RunRequest) (b : Switchboard) {s : Session ι}
    (reached : Reaches requests b s) :
    (∀ i result, s.result? i = some result → ∀ schedule, result.map Multiset.ofList =
      (Switchboard.empty.runBy schedule (requests i)).2.result.map Multiset.ofList) ∧
    (∀ i, s.result? i = none → ∃ next, Step requests i s next) ∧
    Acc (fun next s => Moves requests s next) s ∧
    ∀ i, s.stages i = .ahead → ∀ schedule, ∃ next, Reaches requests b next ∧
      next.board = (s.board.runBy schedule (requests i)).1 ∧
      next.result? i = some (s.board.runBy schedule (requests i)).2.result ∧
      ∀ j ≠ i, next.stages j = s.stages j := by
  have sound := sound_of_reaches reached
  refine ⟨fun i result ended schedule => sound.result ended schedule,
    fun i waits => sound.exists_step waits, sound.acc, fun i ahead schedule => ?_⟩
  obtain ⟨next, runs, rest⟩ := exists_runBy ahead schedule
  exact ⟨next, reached.trans runs, rest⟩

end

/-- Two runs of the same rules: one of a file with declarations, one of a stream. -/
def sharers : Bool → RunRequest
  | false => .excused
  | true =>
    { RunRequest.streamed with
      context :=
        { RunRequest.streamed.context with
          inventory := .ofDocument
            { Document.sharing with data := ⟨⟨#[.list [.scalar .null]]⟩, .container 0⟩, source := none }
            none none }
      rules := RunRequest.excused.rules }

/-- What is said of the diagnostics of a run holds, up to their order, of those that are as many. -/
theorem perm_of_alone {α : Type} {f : Diagnostic → α} {result : Except Failure (List Diagnostic)}
    {found : List Diagnostic} {listed : List α}
    (same : (Except.ok found).map Multiset.ofList = result.map Multiset.ofList)
    (alone : (result.toOption.map fun ds => ds.map f) = some listed) : (found.map f).Perm listed := by
  cases result with
  | error failure => cases alone
  | ok ds =>
    cases alone
    exact (Multiset.coe_eq_coe.mp (Except.ok.inj same)).map f

theorem sharers_as_alone :
    ∃ s, Reaches sharers (Switchboard.empty.attach "second" (.refuse "no")) s ∧
    ∃ found found', s.result? false = some (.ok found) ∧ s.result? true = some (.ok found') ∧
      (found.map fun d => (d.code, d.path)).Perm
        [("second", [.str "a"]), ("first", [.str "b"]), ("second", [.str "b"]),
          ("second", [.str "a", .str "x"]), ("second", [.str "b", .str "x"])] ∧
      (found'.map fun d => (d.code, d.path)).Perm
        [("except-but-stdin", []), ("first", [.int 0]), ("second", [.int 0]),
          ("first", [.int 0, .str "x"]), ("second", [.int 0, .str "x"])] := by
  obtain ⟨_, suppressed⟩ := RunRequest.suppresses_of_opening (q := sharers false) rfl
  obtain ⟨_, suppressed'⟩ := RunRequest.suppresses_of_opening (q := sharers true) rfl
  obtain ⟨s, found, found', reached, ended, ended'⟩ :=
    @exists_overlap _ sharers (start Bool (Switchboard.empty.attach "second" (.refuse "no"))) false _ true
      (by decide) rfl rfl _ _ suppressed suppressed'
  obtain ⟨same, _⟩ := runs_as_alone sharers _ reached
  refine ⟨s, reached, found, found', ended, ended', ?_, ?_⟩
  · exact perm_of_alone (same false _ ended ⟨id, List.Perm.refl⟩) (by decide +kernel)
  · exact perm_of_alone (same true _ ended' ⟨id, List.Perm.refl⟩) (by decide +kernel)

end Session
end DocLint
