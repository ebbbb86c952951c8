import Mathlib.Logic.Function.Basic
import EtherBench.Library.Transition

/-! # Threads that take locks around uses of a shared resource

A thread runs straight-line programs of lock operations and uses. At a use it may enter
and leave the resource any number of times. Which locks a thread holds is read off the
rest of its program, so a check of each program once and for all gives the invariant of
every interleaving.
-/

namespace EtherBench.Library.Locks
open Transition

variable {T L U C : Type*} [DecidableEq L]

inductive Op (L U : Type*) where
  | lock (m : L)
  | unlock (m : L)
  | use (x : U)
  deriving DecidableEq

/-- The lock `m` is held where `program` remains: its next operation on `m` releases it. -/
def held (m : L) : List (Op L U) → Bool
  | [] => false
  | .lock n :: rest => if n = m then false else held m rest
  | .unlock n :: rest => if n = m then true else held m rest
  | .use _ :: rest => held m rest

/-- A program releases what it takes, and makes each use under the locks of its guard. -/
def disciplined (guard : U → List L) : List (Op L U) → Bool
  | [] => true
  | .lock m :: rest => held m rest && disciplined guard rest
  | .unlock m :: rest => !held m rest && disciplined guard rest
  | .use x :: rest => (guard x).all (held · rest) && disciplined guard rest

/-- The owner of each lock, the rest of each thread's program, and who is in the resource. -/
structure State (T L U : Type*) where
  owner : L → Option T
  program : T → List (Op L U)
  inside : T → Bool

def init : State T L U := ⟨fun _ => none, fun _ => [], fun _ => false⟩

inductive Label (T C : Type*) where
  | start (t : T) (c : C)
  | acquire (t : T)
  | release (t : T)
  | enter (t : T)
  | leave (t : T)
  | pass (t : T)

section Steps

variable [DecidableEq T]

/-- One step of one thread; `body` gives the program of each call. -/
def step (body : T → C → List (Op L U)) (s : State T L U) : Label T C → Option (State T L U)
  | .start t c =>
    match s.program t with
    | [] => some { s with program := Function.update s.program t (body t c) }
    | _ => none
  | .acquire t =>
    match s.program t with
    | .lock m :: rest =>
      if s.owner m = none then
        some { s with
          owner := Function.update s.owner m (some t)
          program := Function.update s.program t rest }
      else none
    | _ => none
  | .release t =>
    match s.program t with
    | .unlock m :: rest =>
      if s.owner m = some t then
        some { s with
          owner := Function.update s.owner m none
          program := Function.update s.program t rest }
      else none
    | _ => none
  | .enter t =>
    match s.program t with
    | .use _ :: _ =>
      if s.inside t then none else some { s with inside := Function.update s.inside t true }
    | _ => none
  | .leave t => if s.inside t then some { s with inside := Function.update s.inside t false } else none
  | .pass t =>
    match s.program t with
    | .use _ :: rest =>
      if s.inside t then none else some { s with program := Function.update s.program t rest }
    | _ => none

inductive Step (body : T → C → List (Op L U)) (s : State T L U) : Label T C → State T L U → Prop
  | start {t c} (h : s.program t = []) :
      Step body s (.start t c) { s with program := Function.update s.program t (body t c) }
  | acquire {t m rest} (h : s.program t = .lock m :: rest) (hfree : s.owner m = none) :
      Step body s (.acquire t) { s with
        owner := Function.update s.owner m (some t)
        program := Function.update s.program t rest }
  | release {t m rest} (h : s.program t = .unlock m :: rest) (hown : s.owner m = some t) :
      Step body s (.release t) { s with
        owner := Function.update s.owner m none
        program := Function.update s.program t rest }
  | enter {t x rest} (h : s.program t = .use x :: rest) (hout : s.inside t = false) :
      Step body s (.enter t) { s with inside := Function.update s.inside t true }
  | leave {t} (hin : s.inside t = true) :
      Step body s (.leave t) { s with inside := Function.update s.inside t false }
  | pass {t x rest} (h : s.program t = .use x :: rest) (hout : s.inside t = false) :
      Step body s (.pass t) { s with program := Function.update s.program t rest }

theorem step_cases {body : T → C → List (Op L U)} {s s' : State T L U} {a : Label T C}
    (h : step body s a = some s') : Step body s a s' := by
  cases a with
  | start t c =>
    simp only [step] at h
    split at h
    · next hprog => cases h; exact .start hprog
    · cases h
  | acquire t =>
    simp only [step] at h
    split at h
    · next m rest hprog =>
      split at h
      · next hfree => cases h; exact .acquire hprog hfree
      · cases h
    · cases h
  | release t =>
    simp only [step] at h
    split at h
    · next m rest hprog =>
      split at h
      · next hown => cases h; exact .release hprog hown
      · cases h
    · cases h
  | enter t =>
    simp only [step] at h
    split at h
    · next x rest hprog =>
      split at h
      · cases h
      · next hout => cases h; exact .enter hprog (by simpa using hout)
    · cases h
  | leave t =>
    simp only [step] at h
    split at h
    · next hin => cases h; exact .leave hin
    · cases h
  | pass t =>
    simp only [step] at h
    split at h
    · next x rest hprog =>
      split at h
      · cases h
      · next hout => cases h; exact .pass hprog (by simpa using hout)
    · cases h

end Steps

/-- A thread owns exactly the locks its program still releases, and is in the resource
only at a use. -/
structure Inv (guard : U → List L) (s : State T L U) : Prop where
  disciplined : ∀ t, disciplined guard (s.program t) = true
  owner : ∀ m t, s.owner m = some t ↔ held m (s.program t) = true
  inside : ∀ t, s.inside t = true → ∃ x rest, s.program t = .use x :: rest

theorem init_inv (guard : U → List L) : Inv guard (init : State T L U) where
  disciplined _ := rfl
  owner _ _ := by simp [init, held]
  inside _ h := by simp [init] at h

theorem Inv.same_holder {guard : U → List L} {s : State T L U} (h : Inv guard s) {m : L} {t u : T}
    (ht : held m (s.program t) = true) (hu : held m (s.program u) = true) : t = u := by
  have howner := (h.owner m t).mpr ht
  rw [(h.owner m u).mpr hu] at howner
  exact (Option.some.inj howner).symm

theorem held_of_guard {guard : U → List L} {x : U} {rest : List (Op L U)} {m : L}
    (h : disciplined guard (.use x :: rest) = true) (hm : m ∈ guard x) :
    held m (.use x :: rest : List (Op L U)) = true := by
  simp only [disciplined, Bool.and_eq_true, List.all_eq_true] at h
  exact h.1 m hm

theorem Inv.outside {guard : U → List L} {s : State T L U} (h : Inv guard s) {t : T}
    (hprog : ∀ x rest, s.program t ≠ .use x :: rest) : s.inside t = false := by
  by_contra hin
  obtain ⟨x, rest, huse⟩ := h.inside t (by simpa using hin)
  exact hprog x rest huse

/-- The body of every call is disciplined and starts with no lock. -/
structure Checked (guard : U → List L) (body : T → C → List (Op L U)) : Prop where
  disciplined : ∀ t c, Locks.disciplined guard (body t c) = true
  closed : ∀ t c m, held m (body t c) = false

variable [DecidableEq T] {guard : U → List L} {s : State T L U} {t : T}

/-- A thread outside of the resource may go on with any program that holds the same locks. -/
theorem Inv.replace (hs : Inv guard s) (hout : s.inside t = false) {p : List (Op L U)}
    (hp : Locks.disciplined guard p = true) (hheld : ∀ m, held m p = held m (s.program t)) :
    Inv guard { s with program := Function.update s.program t p } where
  disciplined u := by
    by_cases hu : u = t
    · subst hu
      simpa using hp
    · simpa [hu] using hs.disciplined u
  owner m u := by
    by_cases hu : u = t
    · subst hu
      simpa [hheld] using hs.owner m u
    · simpa [hu] using hs.owner m u
  inside u hin := by
    have hu : u ≠ t := by
      rintro rfl
      exact absurd hin (by simp [hout])
    simpa [hu] using hs.inside u hin

/-- A lock operation moves one lock between its thread and nobody. -/
theorem Inv.exchange (hs : Inv guard s) (hout : s.inside t = false) {rest : List (Op L U)} {m : L}
    {owner : Option T} (hrest : Locks.disciplined guard rest = true)
    (hother : ∀ n, n ≠ m → held n rest = held n (s.program t))
    (hself : owner = some t ↔ held m rest = true)
    (hnone : ∀ u, u ≠ t → owner ≠ some u ∧ s.owner m ≠ some u) :
    Inv guard { s with
      owner := Function.update s.owner m owner
      program := Function.update s.program t rest } where
  disciplined u := by
    by_cases hu : u = t
    · subst hu
      simpa using hrest
    · simpa [hu] using hs.disciplined u
  owner n u := by
    by_cases hn : n = m
    · subst hn
      by_cases hu : u = t
      · subst hu
        simpa using hself
      · have hheld : held n (s.program u) ≠ true := fun h => (hnone u hu).2 ((hs.owner n u).mpr h)
        simpa [hu, (hnone u hu).1] using hheld
    · by_cases hu : u = t
      · subst hu
        simpa [hn, hother n hn] using hs.owner n u
      · simpa [hn, hu] using hs.owner n u
  inside u hin := by
    have hu : u ≠ t := by
      rintro rfl
      exact absurd hin (by simp [hout])
    simpa [hu] using hs.inside u hin

theorem Inv.setInside (hs : Inv guard s) {b : Bool}
    (hb : b = true → ∃ x rest, s.program t = .use x :: rest) :
    Inv guard { s with inside := Function.update s.inside t b } where
  disciplined := hs.disciplined
  owner := hs.owner
  inside u hin := by
    by_cases hu : u = t
    · subst hu
      exact hb (by simpa using hin)
    · exact hs.inside u (by simpa [hu] using hin)

theorem step_inv {body : T → C → List (Op L U)} (hbody : Checked guard body) {s' : State T L U}
    {a : Label T C} (hs : Inv guard s) (h : step body s a = some s') : Inv guard s' := by
  cases step_cases h with
  | @start t c hprog =>
    apply hs.replace (hs.outside (by simp [hprog])) (hbody.disciplined t c)
    intro m
    rw [hprog, hbody.closed]
    rfl
  | @acquire t m rest hprog hfree =>
    have hdisc := hs.disciplined t
    rw [hprog, Locks.disciplined, Bool.and_eq_true] at hdisc
    apply hs.exchange (hs.outside (by simp [hprog])) hdisc.2
    · intro n hn
      simp [hprog, held, hn.symm]
    · exact iff_of_true rfl hdisc.1
    · intro u hu
      exact ⟨by simpa using hu.symm, by simp [hfree]⟩
  | @release t m rest hprog hown =>
    have hdisc := hs.disciplined t
    rw [hprog, Locks.disciplined, Bool.and_eq_true] at hdisc
    apply hs.exchange (hs.outside (by simp [hprog])) hdisc.2
    · intro n hn
      simp [hprog, held, hn.symm]
    · exact iff_of_false (by simp) (by simpa using hdisc.1)
    · intro u hu
      exact ⟨by simp, by simpa [hown] using hu.symm⟩
  | enter hprog hout => exact hs.setInside (fun _ => ⟨_, _, hprog⟩)
  | leave hin => exact hs.setInside (fun h => by simp at h)
  | @pass t x rest hprog hout =>
    have hdisc := hs.disciplined t
    rw [hprog, Locks.disciplined, Bool.and_eq_true] at hdisc
    apply hs.replace hout hdisc.2
    intro m
    rw [hprog]
    rfl

def Exclusive (s : State T L U) : Prop := ∀ t u, s.inside t = true → s.inside u = true → t = u

/-- Thread `t` may enter: nobody is in the resource for a use whose guard shares no lock
with the use that `t` stands at. -/
def Compatible (guard : U → List L) (s : State T L U) : Label T C → Prop
  | .enter t => ∀ u x y rest rest', s.inside u = true → s.program t = .use x :: rest →
      s.program u = .use y :: rest' → ∃ m, m ∈ guard x ∧ m ∈ guard y
  | _ => True

omit [DecidableEq T] in
/-- Whoever is in the resource excludes a compatible entry. -/
theorem Inv.enter_alone (hs : Inv guard s) {x : U} {rest : List (Op L U)}
    (hprog : s.program t = .use x :: rest) (hout : s.inside t = false)
    (hcompat : Compatible guard s (.enter t : Label T C)) (u : T) : s.inside u = false := by
  by_contra hu
  rw [Bool.not_eq_false] at hu
  obtain ⟨y, rest', hprog'⟩ := hs.inside u hu
  obtain ⟨m, hx, hy⟩ := hcompat u x y rest rest' hu hprog hprog'
  have hheld : held m (s.program t) = true := by
    rw [hprog]
    exact held_of_guard (hprog ▸ hs.disciplined t) hx
  have hheld' : held m (s.program u) = true := by
    rw [hprog']
    exact held_of_guard (hprog' ▸ hs.disciplined u) hy
  rw [hs.same_holder hheld hheld', hu] at hout
  cases hout

theorem step_exclusive {body : T → C → List (Op L U)} {s' : State T L U} {a : Label T C}
    (hs : Inv guard s) (hex : Exclusive s) (hcompat : Compatible guard s a)
    (h : step body s a = some s') : Exclusive s' := by
  cases step_cases h with
  | start _ => exact hex
  | acquire _ _ => exact hex
  | release _ _ => exact hex
  | pass _ _ => exact hex
  | @leave v hin =>
    intro t u ht hu
    by_cases htv : t = v
    · simp [htv] at ht
    by_cases huv : u = v
    · simp [huv] at hu
    · exact hex t u (by simpa [htv] using ht) (by simpa [huv] using hu)
  | @enter v x rest hprog hout =>
    have halone := hs.enter_alone hprog hout hcompat
    have hentered : ∀ t, Function.update s.inside v true t = true → t = v := by
      intro t ht
      by_contra htv
      simp [htv, halone t] at ht
    intro t u ht hu
    rw [hentered t ht, hentered u hu]

theorem step_clash {body : T → C → List (Op L U)} {s' : State T L U} {a : Label T C}
    (hclash : ¬ Compatible guard s a) (h : step body s a = some s') : ¬ Exclusive s' := by
  cases step_cases h with
  | @enter t x rest hprog hout =>
    simp only [Compatible, not_forall] at hclash
    obtain ⟨u, -, -, -, -, hu, -⟩ := hclash
    intro hex
    have htu : t = u := hex t u (by simp) (by simp [Function.update_apply, hu])
    rw [htu, hu] at hout
    cases hout
  | start _ => exact absurd trivial hclash
  | acquire _ _ => exact absurd trivial hclash
  | release _ _ => exact absurd trivial hclash
  | leave _ => exact absurd trivial hclash
  | pass _ _ => exact absurd trivial hclash

/-- Two uses that share a lock of their guards exclude each other. So in every interleaving the
resource is used by one thread at a time exactly as long as each entry is compatible. -/
theorem exclusive_iff {body : T → C → List (Op L U)} (hbody : Checked guard body)
    (labels : List (Label T C)) :
    Always (step body) Exclusive init labels ↔
      Along (step body) (Compatible guard) init labels := by
  let I : State T L U → Prop := fun s => Inv guard s ∧ Exclusive s
  have hinit : I init := ⟨init_inv guard, fun t u ht => by simp [init] at ht⟩
  refine always_iff_along (fun _ h => h.2) ?_ ?_ hinit
  · rintro s a s' ⟨hs, hex⟩ hcompat hstep
    exact ⟨step_inv hbody hs hstep, step_exclusive hs hex hcompat hstep⟩
  · rintro s a s' - hclash hstep
    exact step_clash hclash hstep

end EtherBench.Library.Locks
