import DocLint.Proofs.Run.Outcome

/-!
# Waiting for checks

When all nodes are linted, a run waits for the checks that answer later. They answer one at a time and in
any order, while the run takes them in batches: it looks which checks it has not taken yet, waits until
these have answered, notes the ones that failed and looks again. `Wait.Step` is this as a relation between
states. Whatever the order, a wait comes to its end (`Wait.acc_step`), and at its end every check has
answered once (`Wait.complete_of_returned`). The waits that have ended are the runs by the different
schedules (`Wait.exists_of_schedule`, `Wait.exists_schedule`).
-/
namespace DocLint
open Relation

/-- What is noted of a check that answered: that it failed, if it did. -/
def Pending.note (p : Pending) : Option LogEntry :=
  p.failure?.map .laterCheckFailed

/-- Any order of some checks is the order of a schedule. -/
theorem Schedule.exists_order_eq {checks order : List Pending} (perm : order.Perm checks) :
    ∃ schedule : Schedule, schedule.order checks = order := by
  classical
  refine ⟨⟨fun cs => if cs = checks then order else cs, fun cs => ?_⟩, if_pos rfl⟩
  by_cases same : cs = checks
  · rw [if_pos same, same]
    exact perm
  · rw [if_neg same]

/-- The checks of a ledger that were started at some positions. -/
def Ledger.startedAt (l : Ledger) (positions : List Nat) : List Pending :=
  positions.filterMap fun i => l.pending[i]?

theorem Ledger.startedAt_append (l : Ledger) (first second : List Nat) :
    l.startedAt (first ++ second) = l.startedAt first ++ l.startedAt second :=
  List.filterMap_append

/-- What a waiting run does next. -/
inductive Wait.Phase where
  /-- To look whether there are checks that it has not taken. -/
  | looking
  /-- To wait for the checks that it has taken, those from a position on. -/
  | gathering (start : Nat)
  /-- Nothing more. -/
  | returned
  deriving DecidableEq

/-- A run that waits. The number of checks that it has taken is that of the ledger. -/
structure Wait where
  ledger : Ledger
  phase : Wait.Phase
  /-- The positions of the checks that have answered, in the order in which they did. -/
  answered : List Nat
  log : List LogEntry

namespace Wait

/-- The state in which the wait of a ledger begins. -/
def start (l : Ledger) : Wait :=
  ⟨l, .looking, [], []⟩

/-- The state after checks at some positions have answered: what each of them found is recorded, which is
nothing if it failed. -/
def answering (w : Wait) (positions : List Nat) : Wait :=
  { w with ledger := { w.ledger with entries := w.ledger.entries ++
                        (w.ledger.startedAt positions).flatMap Pending.recorded }
           answered := w.answered ++ positions }

/-- What happens during a wait. -/
inductive Step : Wait → Wait → Prop
  /-- A check that has not answered does so. -/
  | answer {w : Wait} {i : Nat} (started : i < w.ledger.pending.length)
      (unanswered : i ∉ w.answered) : Step w (w.answering [i])
  /-- The run takes all checks that it has not taken before. -/
  | take {w : Wait} (looks : w.phase = .looking)
      (more : w.ledger.settled < w.ledger.pending.length) :
      Step w { w with ledger := { w.ledger with settled := w.ledger.pending.length }
                      phase := .gathering w.ledger.settled }
  /-- The checks that it took have all answered, and the run notes the failures in their order. -/
  | collect {w : Wait} {first : Nat} (gathers : w.phase = .gathering first)
      (all : ∀ i, first ≤ i → i < w.ledger.settled → i ∈ w.answered) :
      Step w { w with phase := .looking
                      log := w.log ++
                        ((w.ledger.pending.take w.ledger.settled).drop first).filterMap Pending.note }
  /-- There are no checks that it has not taken, and the run returns. -/
  | finish {w : Wait} (looks : w.phase = .looking)
      (none : w.ledger.pending.length ≤ w.ledger.settled) :
      Step w { w with phase := .returned }

/-- The states that a wait of a ledger can come to. -/
def Reaches (l : Ledger) (w : Wait) : Prop :=
  ReflTransGen Step (start l) w

/-- The number of checks whose failures have been noted. -/
def collected (w : Wait) : Nat :=
  match w.phase with
  | .looking => w.ledger.settled
  | .gathering first => first
  | .returned => w.ledger.settled

/-- What holds all through the wait of a ledger. -/
structure Sound (l : Ledger) (w : Wait) : Prop where
  /-- Only entries are added, those of the checks that have answered one after the other. -/
  ledger : w.ledger = { l with entries := l.entries ++ (l.startedAt w.answered).flatMap Pending.recorded
                               settled := w.ledger.settled }
  once : w.answered.Nodup
  inRange : ∀ i ∈ w.answered, i < l.pending.length
  taken : w.ledger.settled ≤ l.pending.length
  ordered : w.collected ≤ w.ledger.settled
  waitedFor : ∀ i < w.collected, i ∈ w.answered
  noted : w.log = (l.pending.take w.collected).filterMap Pending.note
  ended : w.phase = .returned → w.ledger.settled = l.pending.length

/-- A wait that has ended as it should: every check has answered, once, and has added to the entries what
it found, and every failure is noted. -/
structure Complete (l : Ledger) (w : Wait) : Prop where
  answered : w.answered.Perm (List.range l.pending.length)
  entries : w.ledger.entries = l.entries ++ (l.startedAt w.answered).flatMap Pending.recorded
  log : w.log = l.pending.filterMap Pending.note
  visits : w.ledger.visits = l.visits

variable {l : Ledger} {w next : Wait}

theorem sound_start (fresh : l.settled = 0) : Sound l (start l) where
  ledger := by simp [start, Ledger.startedAt]
  once := List.nodup_nil
  inRange := by simp [start]
  taken := by simp [start, fresh]
  ordered := Nat.le_refl _
  waitedFor := by simp [start, collected, fresh]
  noted := by simp [start, collected, fresh]
  ended := by simp [start]

theorem Sound.pending (sound : Sound l w) : w.ledger.pending = l.pending := by
  rw [sound.ledger]

/-- Before it takes checks or returns, a run has noted the failures of all checks that it took. -/
theorem collected_of_looking (looks : w.phase = .looking) : w.collected = w.ledger.settled := by
  simp [collected, looks]

/-- A check that answers keeps what holds all through a wait. -/
theorem Sound.answer (sound : Sound l w) {i : Nat} (started : i < l.pending.length)
    (unanswered : i ∉ w.answered) : Sound l (w.answering [i]) := by
  refine { sound with ledger := ?_, once := ?_, inRange := ?_, waitedFor := ?_ }
  · have same : w.ledger.startedAt = l.startedAt := by rw [sound.ledger]; rfl
    have added := congrArg (fun m : Ledger =>
      { m with entries := m.entries ++ (l.startedAt [i]).flatMap Pending.recorded }) sound.ledger
    simpa [answering, same, Ledger.startedAt_append] using added
  · refine List.nodup_append.mpr ⟨sound.once, List.nodup_singleton i, ?_⟩
    rintro j member k only rfl
    exact unanswered (List.mem_singleton.mp only ▸ member)
  · intro j member
    rcases List.mem_append.mp member with old | new
    · exact sound.inRange j old
    · exact List.mem_singleton.mp new ▸ started
  · intro j below
    exact List.mem_append_left _ (sound.waitedFor j below)

/-- Noting the failures among the checks that were taken last keeps what holds all through a wait. -/
theorem Sound.collect (sound : Sound l w) {first : Nat} (gathers : w.phase = .gathering first)
    (all : ∀ i, first ≤ i → i < w.ledger.settled → i ∈ w.answered) :
    Sound l { w with phase := .looking
                     log := w.log ++
                      ((l.pending.take w.ledger.settled).drop first).filterMap Pending.note } := by
  have before : w.collected = first := by simp [collected, gathers]
  refine { sound with ordered := Nat.le_refl _, waitedFor := ?_, noted := ?_, ended := by simp }
  · intro i below
    by_cases early : i < first
    · exact sound.waitedFor i (before ▸ early)
    · exact all i (Nat.le_of_not_lt early) below
  · have bound : first ≤ w.ledger.settled := before ▸ sound.ordered
    have whole : l.pending.take first ++ (l.pending.take w.ledger.settled).drop first =
        l.pending.take w.ledger.settled := by
      have split := List.take_append_drop first (l.pending.take w.ledger.settled)
      rwa [List.take_take, Nat.min_eq_left bound] at split
    change w.log ++ _ = (l.pending.take w.ledger.settled).filterMap Pending.note
    rw [sound.noted, before, ← List.filterMap_append, whole]

/-- What holds all through a wait is kept by each step of it. -/
theorem Sound.step (sound : Sound l w) (step : Step w next) : Sound l next := by
  have pending := sound.pending
  cases step with
  | answer started unanswered => exact sound.answer (pending ▸ started) unanswered
  | take looks more =>
    have before := collected_of_looking looks
    refine { sound with ledger := ?_, taken := ?_, ordered := more.le, waitedFor := ?_, noted := ?_
                        ended := by simp }
    · exact congrArg (fun m : Ledger => { m with settled := w.ledger.pending.length }) sound.ledger
    · exact Nat.le_of_eq (congrArg List.length pending)
    · intro i below
      exact sound.waitedFor i (before ▸ below)
    · exact before ▸ sound.noted
  | collect gathers all =>
    rw [pending]
    exact sound.collect gathers all
  | finish looks none =>
    have before := collected_of_looking looks
    refine { sound with ordered := Nat.le_refl _, waitedFor := ?_, noted := ?_, ended := ?_ }
    · intro i below
      exact sound.waitedFor i (before ▸ below)
    · exact sound.noted.trans (before ▸ rfl)
    · intro _
      exact Nat.le_antisymm sound.taken (pending ▸ none)

/-- What holds all through a wait holds in every state that it comes to. -/
theorem sound_of_reaches (fresh : l.settled = 0) (reached : Reaches l w) : Sound l w := by
  induction reached with
  | refl => exact sound_start fresh
  | tail _ step ih => exact ih.step step

/-- When a run has returned from its wait, the wait is complete. -/
theorem complete_of_returned (fresh : l.settled = 0) (reached : Reaches l w)
    (returned : w.phase = .returned) : Complete l w := by
  have sound := sound_of_reaches fresh reached
  have all : w.collected = l.pending.length := by
    simp [collected, returned, sound.ended returned]
  refine ⟨?_, ?_, ?_, ?_⟩
  · refine (List.perm_ext_iff_of_nodup sound.once List.nodup_range).mpr fun i => ?_
    rw [List.mem_range]
    exact ⟨sound.inRange i, fun below => sound.waitedFor i (all ▸ below)⟩
  · rw [sound.ledger]
  · rw [sound.noted, all, List.take_length]
  · rw [sound.ledger]

/-- The checks of a complete wait in the order of their answers are all of them. -/
theorem Complete.perm (complete : Complete l w) : (l.startedAt w.answered).Perm l.pending := by
  have all := complete.answered.filterMap fun i => l.pending[i]?
  rwa [filterMap_getElem?_range] at all

/-- A run that has not returned is never stuck: it can go on, or some check is yet to answer. -/
theorem exists_step (fresh : l.settled = 0) (reached : Reaches l w) (waits : w.phase ≠ .returned) :
    ∃ next, Step w next := by
  have sound := sound_of_reaches fresh reached
  cases phase : w.phase with
  | looking =>
    by_cases more : w.ledger.settled < w.ledger.pending.length
    · exact ⟨_, .take phase more⟩
    · exact ⟨_, .finish phase (Nat.le_of_not_lt more)⟩
  | gathering first =>
    by_cases all : ∀ i, first ≤ i → i < w.ledger.settled → i ∈ w.answered
    · exact ⟨_, .collect phase all⟩
    · simp only [not_forall] at all
      obtain ⟨i, _, below, unanswered⟩ := all
      have bound : i < w.ledger.pending.length := by
        rw [sound.pending]
        exact Nat.lt_of_lt_of_le below sound.taken
      exact ⟨_, .answer bound unanswered⟩
  | returned => exact absurd phase waits

/-- The steps that are left at most: one for every check that has not answered, and those of the run. -/
def remaining (w : Wait) : Nat :=
  ((List.range w.ledger.pending.length).filter (· ∉ w.answered)).length +
    3 * (w.ledger.pending.length - w.ledger.settled) +
    match w.phase with
    | .looking => 1
    | .gathering _ => 2
    | .returned => 0

theorem Step.remaining_lt (step : Step w next) : next.remaining < w.remaining := by
  cases step with
  | @answer i started unanswered =>
    have fewer : ((List.range w.ledger.pending.length).filter (· ∉ w.answered ++ [i])).length <
        ((List.range w.ledger.pending.length).filter (· ∉ w.answered)).length := by
      have others : (List.range w.ledger.pending.length).filter (· ∉ w.answered ++ [i]) =
          ((List.range w.ledger.pending.length).filter (· ∉ w.answered)).filter (· ≠ i) := by
        rw [List.filter_filter]
        refine List.filter_congr fun j _ => ?_
        simp [Bool.and_comm]
      rw [others]
      refine List.length_filter_lt_length_iff_exists.mpr ⟨i, ?_, by simp⟩
      simpa using ⟨started, unanswered⟩
    exact Nat.add_lt_add_right (Nat.add_lt_add_right fewer _) _
  | take looks more =>
    simp only [remaining, looks]
    omega
  | collect gathers _ =>
    simp only [remaining, gathers]
    omega
  | finish looks _ =>
    simp only [remaining, looks]
    omega

/-- No wait goes on for ever. -/
theorem acc_step (w : Wait) : Acc (fun next w => Step w next) w :=
  (Subrelation.wf Step.remaining_lt (measure remaining).wf).apply w

/-- Checks that have not answered can do so in any order. -/
theorem reaches_answering (w : Wait) {positions : List Nat} (distinct : positions.Nodup)
    (unanswered : ∀ i ∈ positions, i ∉ w.answered)
    (started : ∀ i ∈ positions, i < w.ledger.pending.length) :
    ReflTransGen Step w (w.answering positions) := by
  induction positions generalizing w with
  | nil => simpa [answering, Ledger.startedAt] using ReflTransGen.refl
  | cons i rest ih =>
    rw [List.nodup_cons] at distinct
    have first := Step.answer (started i List.mem_cons_self) (unanswered i List.mem_cons_self)
    have others := ih (w.answering [i]) distinct.2 (fun j member answered => by
      rcases List.mem_append.mp answered with old | new
      · exact unanswered j (List.mem_cons_of_mem i member) old
      · exact distinct.1 (List.mem_singleton.mp new ▸ member))
      fun j member => started j (List.mem_cons_of_mem i member)
    have whole : (w.answering [i]).answering rest = w.answering (i :: rest) := by
      have split := w.ledger.startedAt_append [i] rest
      simp only [List.singleton_append] at split
      simp only [answering, split, List.flatMap_append, List.append_assoc, List.singleton_append]
      rfl
    exact whole ▸ others.head first

/-- The checks of a ledger can answer in any order before the run returns. -/
theorem exists_answering (fresh : l.settled = 0) {positions : List Nat}
    (all : positions.Perm (List.range l.pending.length)) :
    ∃ w, Reaches l w ∧ w.phase = .returned ∧ w.answered = positions := by
  have inRange : ∀ i, i ∈ positions ↔ i < l.pending.length := fun i =>
    all.mem_iff.trans List.mem_range
  by_cases none : l.pending = []
  · have nothing : positions = [] := by simpa [none] using all
    exact ⟨_, .single (.finish rfl (by simp [start, none])), rfl, nothing.symm⟩
  · have more : (start l).ledger.settled < (start l).ledger.pending.length :=
      fresh ▸ List.length_pos_iff.mpr none
    obtain ⟨w, takes, phase, silent, taken⟩ : ∃ w, Step (start l) w ∧
        w.phase = .gathering l.settled ∧ w.answered = [] ∧
          w.ledger = { l with settled := l.pending.length } := ⟨_, .take rfl more, rfl, rfl, rfl⟩
    have answers := reaches_answering w (all.nodup_iff.mpr List.nodup_range) (by simp [silent])
      (by simp [taken, inRange])
    have collects := Step.collect (w := w.answering positions) phase fun i _ below =>
      List.mem_append_right _ ((inRange i).mpr (by simpa [answering, taken] using below))
    have finishes := (answers.head takes).tail collects |>.tail
      (.finish rfl (by simp [answering, taken]))
    exact ⟨_, finishes, rfl, by simp [answering, silent]⟩

/-- What a run returns from its wait is settled by the order of the answers. -/
theorem settleBy_of_returned (fresh : l.settled = 0) (reached : Reaches l w)
    (returned : w.phase = .returned) {schedule : Schedule}
    (ordered : schedule.order l.pending = l.startedAt w.answered) :
    l.settleBy schedule = (w.ledger, w.log) := by
  have sound := sound_of_reaches fresh reached
  have outstanding : l.outstanding = l.pending := by simp [Ledger.outstanding, fresh]
  rw [(complete_of_returned fresh reached returned).log, sound.ledger, sound.ended returned]
  simp only [Ledger.settleBy, Ledger.settleIn, outstanding, ordered]
  rfl

/-- Waiting by a schedule is a wait that has ended. -/
theorem exists_of_schedule (fresh : l.settled = 0) (schedule : Schedule) :
    ∃ w, Reaches l w ∧ w.phase = .returned ∧ l.settleBy schedule = (w.ledger, w.log) := by
  obtain ⟨positions, all, ordered⟩ := exists_positions (schedule.perm l.pending)
  obtain ⟨w, reached, returned, rfl⟩ := exists_answering fresh all
  exact ⟨w, reached, returned, settleBy_of_returned fresh reached returned ordered.symm⟩

/-- A wait that has ended is waiting by a schedule. -/
theorem exists_schedule (fresh : l.settled = 0) (reached : Reaches l w)
    (returned : w.phase = .returned) :
    ∃ schedule, l.settleBy schedule = (w.ledger, w.log) := by
  obtain ⟨schedule, ordered⟩ :=
    Schedule.exists_order_eq (complete_of_returned fresh reached returned).perm
  exact ⟨schedule, settleBy_of_returned fresh reached returned ordered⟩

end Wait
end DocLint
