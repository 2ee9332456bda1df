import DocLint.Yaml.Error

/-!
# Faults of reading a text

`Settles` says of an attempt which errors it can fail with, and what holds of its result; `Keeps` says so of a step
that has a state, and that a property of states lasts. Both are closed under doing one thing after the other. Some
errors say that a text is not acceptable; the others would have the program end (`Faults.refusals`).
-/
namespace DocLint

/-- Whether an error says that the text is not acceptable. -/
def YamlError.isRefusal : YamlError → Bool
  | .malformed => true
  | e => e.message?.isSome

namespace Yaml

/-- Errors that a text can have, a fault of its structure among them. -/
structure Faults where
  Has : YamlError → Prop
  malformed : Has .malformed

namespace Faults

/-- The errors that say that the text is not acceptable. -/
def refusals : Faults :=
  ⟨fun e => e.isRefusal = true, rfl⟩

/-- Faults of the structure only. -/
def structural : Faults :=
  ⟨fun e => e = .malformed, rfl⟩

end Faults

variable {α β : Type} {F : Faults}

/-- An attempt has a result with a property, or fails with one of some errors. -/
inductive Settles (F : Faults) (holds : α → Prop) : Except YamlError α → Prop
  | ok {a : α} (here : holds a) : Settles F holds (.ok a)
  | failed {e : YamlError} (known : F.Has e) : Settles F holds (.error e)

namespace Settles
variable {holds : α → Prop} {after : β → Prop}

theorem malformed : Settles F holds (.error .malformed) :=
  .failed F.malformed

theorem mono {attempt : Except YamlError α} {more : α → Prop} (settles : Settles F holds attempt)
    (weaker : ∀ a, holds a → more a) : Settles F more attempt := by
  cases settles with
  | ok here => exact .ok (weaker _ here)
  | failed known => exact .failed known

theorem bind {attempt : Except YamlError α} {next : α → Except YamlError β}
    (first : Settles F holds attempt) (others : ∀ a, holds a → Settles F after (next a)) :
    Settles F after (attempt >>= next) := by
  cases first with
  | ok here => exact others _ here
  | failed known => exact .failed known

theorem map {attempt : Except YamlError α} {f : α → β} (settles : Settles F (fun a => after (f a)) attempt) :
    Settles F after (f <$> attempt) := by
  cases settles with
  | ok here => exact .ok here
  | failed known => exact .failed known

theorem ite {c : Prop} [Decidable c] {yes no : Except YamlError α} (then' : c → Settles F holds yes)
    (else' : ¬ c → Settles F holds no) : Settles F holds (if c then yes else no) := by
  split
  · next here => exact then' here
  · next other => exact else' other

theorem mapM {attempt : α → Except YamlError β} {as : List α}
    (each : ∀ a ∈ as, Settles F after (attempt a)) :
    Settles F (fun bs => bs.length = as.length ∧ ∀ b ∈ bs, after b) (as.mapM attempt) := by
  induction as with
  | nil => exact .ok ⟨rfl, by simp⟩
  | cons a as ih =>
    rw [List.mapM_cons]
    refine (each a List.mem_cons_self).bind fun b here => ?_
    refine (ih fun c member => each c (List.mem_cons_of_mem a member)).bind fun bs others => ?_
    exact .ok ⟨by simp [others.1], List.forall_mem_cons.mpr ⟨here, others.2⟩⟩

end Settles

variable {σ : Type} {inv : σ → Prop} {holds : α → Prop} {after : β → Prop}

/-- A step keeps a property of states, and has a result with a property, or fails with one of some errors. -/
def Keeps (F : Faults) (inv : σ → Prop) (holds : α → Prop) (step : StateT σ (Except YamlError) α) : Prop :=
  ∀ s, inv s → Settles F (fun r => holds r.1 ∧ inv r.2) (step.run s)

namespace Keeps

theorem pure {a : α} (here : holds a) : Keeps F inv holds (pure a) :=
  fun _ before => .ok ⟨here, before⟩

theorem malformed : Keeps F inv holds (throw .malformed : StateT σ (Except YamlError) α) :=
  fun _ _ => .malformed

theorem bind {step : StateT σ (Except YamlError) α} {next : α → StateT σ (Except YamlError) β}
    (first : Keeps F inv holds step) (others : ∀ a, holds a → Keeps F inv after (next a)) :
    Keeps F inv after (step >>= next) := by
  intro s before
  rw [StateT.run_bind]
  exact (first s before).bind fun r between => others r.1 between.1 r.2 between.2

theorem mono {step : StateT σ (Except YamlError) α} {more : α → Prop} (keeps : Keeps F inv holds step)
    (weaker : ∀ a, holds a → more a) : Keeps F inv more step :=
  fun s before => (keeps s before).mono fun r after => ⟨weaker r.1 after.1, after.2⟩

theorem get : Keeps F inv inv (get : StateT σ (Except YamlError) σ) :=
  fun _ before => .ok ⟨before, before⟩

theorem set {s : σ} (kept : inv s) : Keeps F inv (fun _ => True) (set s : StateT σ (Except YamlError) PUnit) :=
  fun _ _ => .ok ⟨trivial, kept⟩

theorem modify {f : σ → σ} (kept : ∀ s, inv s → inv (f s)) :
    Keeps F inv (fun _ => True) (modify f : StateT σ (Except YamlError) PUnit) :=
  fun s before => .ok ⟨trivial, kept s before⟩

theorem lift {attempt : Except YamlError α} (settles : Settles F holds attempt) :
    Keeps F inv holds (liftM attempt : StateT σ (Except YamlError) α) := by
  intro s before
  cases settles with
  | ok here => exact .ok ⟨here, before⟩
  | failed known => exact .failed known

theorem map {step : StateT σ (Except YamlError) α} {f : α → β} (keeps : Keeps F inv (fun a => after (f a)) step) :
    Keeps F inv after (f <$> step) := by
  rw [map_eq_pure_bind]
  exact keeps.bind fun a here => .pure here

theorem mapM {step : α → StateT σ (Except YamlError) β} {as : List α}
    (each : ∀ a ∈ as, Keeps F inv after (step a)) :
    Keeps F inv (fun bs => ∀ b ∈ bs, after b) (as.mapM step) := by
  induction as with
  | nil => exact .pure (by simp)
  | cons a as ih =>
    rw [List.mapM_cons]
    refine (each a List.mem_cons_self).bind fun b here => ?_
    refine (ih fun c member => each c (List.mem_cons_of_mem a member)).bind fun bs others => ?_
    exact .pure (List.forall_mem_cons.mpr ⟨here, others⟩)

theorem foldlM {step : β → α → StateT σ (Except YamlError) β} {as : List α} {b : β}
    (each : ∀ b, ∀ a ∈ as, after b → Keeps F inv after (step b a)) (start : after b) :
    Keeps F inv after (as.foldlM step b) := by
  induction as generalizing b with
  | nil => exact .pure start
  | cons a as ih =>
    rw [List.foldlM_cons]
    refine (each b a List.mem_cons_self start).bind fun c here => ?_
    exact ih (fun b d member => each b d (List.mem_cons_of_mem a member)) here

theorem forM {step : α → StateT σ (Except YamlError) PUnit} {as : List α}
    (each : ∀ a ∈ as, Keeps F inv (fun _ => True) (step a)) : Keeps F inv (fun _ => True) (as.forM step) := by
  induction as with
  | nil => exact .pure trivial
  | cons a as ih =>
    have others := ih fun c member => each c (List.mem_cons_of_mem a member)
    exact (each a List.mem_cons_self).bind fun _ _ => others

end Keeps
end Yaml
end DocLint
