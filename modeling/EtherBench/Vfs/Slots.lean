import Mathlib.Data.Fintype.Basic
import EtherBench.Vfs.Storage
import EtherBench.Vfs.Syscall

/-! # Threads that share the table

`_open` and `_close` of several threads. The search for a free slot, the claim of the slot
under `vfs_mutex` and its reset under the same mutex are single steps, and so is each call into
the storage; between two steps of a thread the others do what they like.
-/

namespace EtherBench.Vfs.Slots
open File Syscall Library.Transition

variable {ω κ ι : Type*}

/-- Where a thread is in `_open` or in `_close`. -/
inductive Phase where
  | idle
  /-- `vfs_get_fd` has returned the slot -/
  | found (fd : Slot) (path : List Char) (flags : BitVec 32)
  | claimed (fd : Slot) (path : List Char) (flags : BitVec 32)
  /-- `vfs_open` holds the mutex of the mount -/
  | opening (fd : Slot) (path : List Char) (flags : BitVec 32)
  /-- `_close` has found the slot in use -/
  | decoded (fd : Slot)
  /-- `vfs_close` holds the mutex of the mount -/
  | closing (fd : Slot)
  | closed (fd : Slot)
  deriving DecidableEq

/-- The slot of a thread between its `vfs_get_fd` and its claim. -/
def Phase.foundSlot : Phase → Option Slot
  | .found fd _ _ => some fd
  | _ => none

/-- The table and the storage, the place of each thread, and the threads whose `_open` has
claimed a slot since it was last closed, the latest first. -/
structure State (ω κ ι : Type*) where
  table : Table κ
  world : World ω
  phase : ι → Phase
  owners : Slot → List ι

def initial [Inhabited κ] (storage : ω) : State ω κ ι := ⟨vfsInit, ⟨storage, 0⟩, fun _ => .idle, fun _ => []⟩

inductive Action (ι : Type*) where
  | getFd (t : ι) (path : List Char) (flags : BitVec 32)
  | claim (t : ι)
  | checkOpen (t : ι)
  | open_ (t : ι)
  | decode (t : ι) (file : ℤ)
  | checkClose (t : ι)
  | close (t : ι)
  | reset (t : ι)

def State.put (s : State ω κ ι) (fd : Slot) (file : VfsFile κ) : State ω κ ι :=
  { s with table := Function.update s.table fd file }

/-- `*file = _vfs_get_config(path, &relative_path)`. A path without a mount owns nothing. -/
def claim [Inhabited κ] (s : State ω κ ι) (t : ι) (fd : Slot) (path : List Char) : State ω κ ι :=
  let file := (configOf κ path).1
  { s.put fd file with
    owners :=
      if file.type = .none then s.owners else Function.update s.owners fd (t :: s.owners fd) }

/-- The storage part of `vfs_open`, on what the slot holds by now. -/
def openFile [Inhabited κ] (B : Backend ω κ) (s : State ω κ ι) (fd : Slot) (path : List Char)
    (flags : BitVec 32) : State ω κ ι :=
  let file := s.table fd
  let opened := B.fxFileOpen file.mediaPtr file.file (configOf κ path).2 (fxOpenMode flags) s.world.storage
  byMount file.type
    { s with world := s.world.fail eio }
    s
    { s.put fd { file with file := opened.2.1 } with world := s.world.store opened.2.2 }

/-- The storage part of `vfs_close`. -/
def closeFile (B : Backend ω κ) (s : State ω κ ι) (fd : Slot) : State ω κ ι :=
  let file := s.table fd
  let released := B.lxSectorRelease file.flashPtr file.sector s.world.storage
  let closed := B.fxFileClose file.file s.world.storage
  byMount file.type
    { s with world := s.world.fail eio }
    { s with world := s.world.store released.2 }
    { s.put fd { file with file := closed.2.1 } with world := s.world.store closed.2.2 }

/-- The end of `vfs_close`: nobody owns the slot any more. -/
def reset (s : State ω κ ι) (fd : Slot) : State ω κ ι :=
  { s.put fd (resetFile (s.table fd)) with owners := Function.update s.owners fd [] }

section Threads
variable [DecidableEq ι]

def State.at (s : State ω κ ι) (t : ι) (p : Phase) : State ω κ ι :=
  { s with phase := Function.update s.phase t p }

@[simp] theorem State.at_phase (s : State ω κ ι) (t : ι) (p : Phase) : (s.at t p).phase t = p := by
  simp only [State.at, Function.update_self]

/-- The mutex of the mount in a slot, which `vfs_open` and `vfs_close` look up on their own. -/
def withMutex (s : State ω κ ι) (t : ι) (fd : Slot) (p : Phase) : State ω κ ι :=
  match vfsGetMutex (s.table fd).type with
  | none => { s with world := s.world.fail eio }.at t .idle
  | some _ => s.at t p

def step [Inhabited κ] (B : Backend ω κ) (s : State ω κ ι) : Action ι → Option (State ω κ ι)
  | .getFd t path flags =>
    match s.phase t, vfsGetFd s.table with
    | .idle, none => some s
    | .idle, some fd => some (s.at t (.found fd path flags))
    | _, _ => none
  | .claim t =>
    match s.phase t with
    | .found fd path flags => some ((claim s t fd path).at t (.claimed fd path flags))
    | _ => none
  | .checkOpen t =>
    match s.phase t with
    | .claimed fd path flags => some (withMutex s t fd (.opening fd path flags))
    | _ => none
  | .open_ t =>
    match s.phase t with
    | .opening fd path flags => some ((openFile B s fd path flags).at t .idle)
    | _ => none
  | .decode t file =>
    match s.phase t, target s.table file with
    | .idle, .std => some s
    | .idle, .invalid | .idle, .unused => some { s with world := s.world.fail enoent }
    | .idle, .slot fd => some (s.at t (.decoded fd))
    | _, _ => none
  | .checkClose t =>
    match s.phase t with
    | .decoded fd => some (withMutex s t fd (.closing fd))
    | _ => none
  | .close t =>
    match s.phase t with
    | .closing fd => some ((closeFile B s fd).at t (.closed fd))
    | _ => none
  | .reset t =>
    match s.phase t with
    | .closed fd => some ((reset s fd).at t .idle)
    | _ => none

end Threads

/-- No slot is given to two files. -/
def OwnedOnce (s : State ω κ ι) : Prop := ∀ fd, (s.owners fd).length ≤ 1

/-- No slot is claimed for a mount while another thread has found it, too, and not claimed it yet. -/
def Undisturbed [Inhabited κ] (s : State ω κ ι) : Action ι → Prop
  | .claim t =>
    match s.phase t with
    | .found fd path _ =>
      (configOf κ path).1.type ≠ .none → ∀ u, u ≠ t → (s.phase u).foundSlot ≠ some fd
    | _ => True
  | _ => True

/-- A slot is in use as long as it is owned, and then by one thread. -/
def Accounted (s : State ω κ ι) : Prop :=
  ∀ fd, (s.owners fd).length = if (s.table fd).type = .none then 0 else 1

theorem Accounted.ownedOnce {s : State ω κ ι} (h : Accounted s) : OwnedOnce s := by
  intro fd
  rw [h fd]
  split <;> omega

theorem initial_accounted [Inhabited κ] (storage : ω) : Accounted (initial storage : State ω κ ι) :=
  fun _ => rfl

theorem Accounted.congr {s t : State ω κ ι} (h : Accounted s)
    (htype : ∀ fd, (t.table fd).type = (s.table fd).type) (howners : t.owners = s.owners) :
    Accounted t := by
  intro fd
  rw [howners, htype]
  exact h fd

theorem put_type {s : State ω κ ι} {fd : Slot} {file : VfsFile κ} (h : file.type = (s.table fd).type)
    (i : Slot) : ((s.put fd file).table i).type = (s.table i).type := by
  change (Function.update s.table fd file i).type = _
  by_cases hi : i = fd
  · rw [hi, Function.update_self, h]
  · rw [Function.update_of_ne hi]

theorem resetFile_type (file : VfsFile κ) : (resetFile file).type = .none := rfl

/-- What threads have found and not claimed yet is free. -/
def FoundFree (s : State ω κ ι) : Prop :=
  ∀ t fd, (s.phase t).foundSlot = some fd → (s.table fd).type = .none

theorem initial_foundFree [Inhabited κ] (storage : ω) : FoundFree (initial storage : State ω κ ι) :=
  fun _ _ h => by cases h

theorem FoundFree.put {s : State ω κ ι} (h : FoundFree s) {fd : Slot} {file : VfsFile κ}
    (hfile : file.type = (s.table fd).type ∨ file.type = .none) : FoundFree (s.put fd file) := by
  intro t i hfound
  have hfree := h t i hfound
  change (Function.update s.table fd file i).type = .none
  by_cases hi : i = fd
  · subst hi
    rw [Function.update_self]
    rcases hfile with hsame | hnone
    · exact hsame.trans hfree
    · exact hnone
  · rw [Function.update_of_ne hi]
    exact hfree

section Operations
variable {s : State ω κ ι} (h : Accounted s)
include h

theorem Accounted.claim [Inhabited κ] {fd : Slot} (hfree : (s.table fd).type = .none) (t : ι) (path : List Char) :
    Accounted (claim s t fd path) := by
  have hnobody : (s.owners fd).length = 0 := by rw [h fd, if_pos hfree]
  intro i
  by_cases hmount : (configOf κ path).1.type = .none
  · have hkept := put_type (hmount.trans hfree.symm) i
    rw [Slots.claim, if_pos hmount]
    change (s.owners i).length = if ((s.put fd _).table i).type = .none then 0 else 1
    rw [hkept]
    exact h i
  · rw [Slots.claim, if_neg hmount]
    change (Function.update s.owners fd (t :: s.owners fd) i).length =
      if (Function.update s.table fd (configOf κ path).1 i).type = .none then 0 else 1
    by_cases hi : i = fd
    · rw [hi, Function.update_self, Function.update_self, if_neg hmount, List.length_cons, hnobody]
    · rw [Function.update_of_ne hi, Function.update_of_ne hi]
      exact h i

theorem Accounted.openFile [Inhabited κ] (B : Backend ω κ) (fd : Slot) (path : List Char) (flags : BitVec 32) :
    Accounted (openFile B s fd path flags) := by
  rw [Slots.openFile]
  apply byMount_ind
  · exact h
  · exact h
  · exact h.congr (put_type rfl) rfl

theorem Accounted.closeFile (B : Backend ω κ) (fd : Slot) : Accounted (closeFile B s fd) := by
  rw [Slots.closeFile]
  apply byMount_ind
  · exact h
  · exact h
  · exact h.congr (put_type rfl) rfl

theorem Accounted.reset (fd : Slot) : Accounted (reset s fd) := by
  intro i
  change (Function.update s.owners fd [] i).length =
    if (Function.update s.table fd (resetFile (s.table fd)) i).type = .none then 0 else 1
  by_cases hi : i = fd
  · rw [hi, Function.update_self, Function.update_self, resetFile_type, if_pos rfl, List.length_nil]
  · rw [Function.update_of_ne hi, Function.update_of_ne hi]
    exact h i

end Operations

section Found
variable {s : State ω κ ι} (h : FoundFree s)
include h

theorem FoundFree.openFile [Inhabited κ] (B : Backend ω κ) (fd : Slot) (path : List Char) (flags : BitVec 32) :
    FoundFree (openFile B s fd path flags) := by
  rw [Slots.openFile]
  apply byMount_ind
  · exact h
  · exact h
  · exact h.put (Or.inl rfl)

theorem FoundFree.closeFile (B : Backend ω κ) (fd : Slot) : FoundFree (closeFile B s fd) := by
  rw [Slots.closeFile]
  apply byMount_ind
  · exact h
  · exact h
  · exact h.put (Or.inl rfl)

theorem FoundFree.reset (fd : Slot) : FoundFree (reset s fd) := h.put (Or.inr rfl)

variable [DecidableEq ι]

theorem FoundFree.at (t : ι) {p : Phase} (hp : ∀ fd, p.foundSlot = some fd → (s.table fd).type = .none) :
    FoundFree (s.at t p) := by
  intro u fd hfound
  change (Function.update s.phase t p u).foundSlot = some fd at hfound
  by_cases hu : u = t
  · subst hu
    rw [Function.update_self] at hfound
    exact hp fd hfound
  · rw [Function.update_of_ne hu] at hfound
    exact h u fd hfound

theorem FoundFree.leave (t : ι) {p : Phase} (hp : p.foundSlot = none) : FoundFree (s.at t p) :=
  h.at t fun fd hfound => by rw [hp] at hfound; cases hfound

theorem FoundFree.withMutex (t : ι) (fd : Slot) {p : Phase} (hp : p.foundSlot = none) :
    FoundFree (withMutex s t fd p) := by
  rw [Slots.withMutex]
  split
  · exact FoundFree.leave (s := { s with world := s.world.fail eio }) h t rfl
  · exact h.leave t hp

theorem FoundFree.claim [Inhabited κ] {t : ι} {fd : Slot} {path : List Char}
    (hapart : (configOf κ path).1.type ≠ .none → ∀ u, u ≠ t → (s.phase u).foundSlot ≠ some fd)
    (flags : BitVec 32) : FoundFree ((claim s t fd path).at t (.claimed fd path flags)) := by
  intro u i hu
  change (Function.update s.phase t (.claimed fd path flags) u).foundSlot = some i at hu
  by_cases hut : u = t
  · subst hut
    rw [Function.update_self] at hu
    cases hu
  · rw [Function.update_of_ne hut] at hu
    change (Function.update s.table fd (configOf κ path).1 i).type = .none
    by_cases hi : i = fd
    · subst hi
      rw [Function.update_self]
      by_contra hmount
      exact hapart hmount u hut hu
    · rw [Function.update_of_ne hi]
      exact h u i hu

end Found

section Runs
variable [DecidableEq ι]

theorem Accounted.at {s : State ω κ ι} (h : Accounted s) (t : ι) (p : Phase) : Accounted (s.at t p) := h

theorem Accounted.withMutex {s : State ω κ ι} (h : Accounted s) (t : ι) (fd : Slot) (p : Phase) :
    Accounted (withMutex s t fd p) := by
  rw [Slots.withMutex]
  split
  · exact h
  · exact h

/-- Everything that one step can do. -/
inductive Moves [Inhabited κ] (B : Backend ω κ) (s : State ω κ ι) : Action ι → State ω κ ι → Prop where
  | refused {a world} : Moves B s a { s with world := world }
  | found {t path flags fd} (hfd : vfsGetFd s.table = some fd) :
    Moves B s (.getFd t path flags) (s.at t (.found fd path flags))
  | claimed {t fd path flags} (hphase : s.phase t = .found fd path flags) :
    Moves B s (.claim t) ((claim s t fd path).at t (.claimed fd path flags))
  | checked {a t fd p} (hp : p.foundSlot = none) : Moves B s a (withMutex s t fd p)
  | opened {t fd path flags} : Moves B s (.open_ t) ((openFile B s fd path flags).at t .idle)
  | decoded {t file fd} : Moves B s (.decode t file) (s.at t (.decoded fd))
  | closed {t fd} : Moves B s (.close t) ((closeFile B s fd).at t (.closed fd))
  | reset {t fd} : Moves B s (.reset t) ((reset s fd).at t .idle)

theorem step_moves [Inhabited κ] {B : Backend ω κ} {s t : State ω κ ι} {a : Action ι}
    (h : step B s a = some t) : Moves B s a t := by
  cases a with
  | getFd u path flags =>
    simp only [step] at h
    split at h
    · cases h
      exact .refused
    · next hfd =>
      cases h
      exact .found hfd
    · cases h
  | claim u =>
    simp only [step] at h
    split at h
    · next hphase =>
      cases h
      exact .claimed hphase
    · cases h
  | checkOpen u =>
    simp only [step] at h
    split at h
    · cases h
      exact .checked rfl
    · cases h
  | open_ u =>
    simp only [step] at h
    split at h
    · cases h
      exact .opened
    · cases h
  | decode u file =>
    simp only [step] at h
    split at h
    · cases h
      exact .refused
    · cases h
      exact .refused
    · cases h
      exact .refused
    · cases h
      exact .decoded
    · cases h
  | checkClose u =>
    simp only [step] at h
    split at h
    · cases h
      exact .checked rfl
    · cases h
  | close u =>
    simp only [step] at h
    split at h
    · cases h
      exact .closed
    · cases h
  | reset u =>
    simp only [step] at h
    split at h
    · cases h
      exact .reset
    · cases h

/-- Step rule: a claim of a free slot keeps the account, and so does everything else. -/
theorem Accounted.step [Inhabited κ] {B : Backend ω κ} {s t : State ω κ ι} {a : Action ι}
    (h : Accounted s) (hfree : FoundFree s) (hstep : step B s a = some t) : Accounted t := by
  cases step_moves hstep with
  | refused => exact h
  | found => exact h.at _ _
  | @claimed u _ _ _ hphase => exact (h.claim (hfree u _ (congrArg Phase.foundSlot hphase)) u _).at u _
  | checked => exact h.withMutex _ _ _
  | opened => exact (h.openFile B _ _ _).at _ _
  | decoded => exact h.at _ _
  | closed => exact (h.closeFile B _).at _ _
  | reset => exact (h.reset _).at _ _

/-- What `vfs_get_fd` has found stays free for as long as nobody else claims it. -/
theorem FoundFree.step [Inhabited κ] {B : Backend ω κ} {s t : State ω κ ι} {a : Action ι}
    (h : FoundFree s) (hapart : Undisturbed s a) (hstep : step B s a = some t) : FoundFree t := by
  cases step_moves hstep with
  | refused => exact h
  | found hfd =>
    exact h.at _ fun i hfound => by
      cases hfound
      exact vfsGetFd_free hfd
  | claimed hphase =>
    simp only [Undisturbed, hphase] at hapart
    exact h.claim hapart _
  | checked hp => exact h.withMutex _ _ hp
  | opened => exact (h.openFile B _ _ _).leave _ rfl
  | decoded => exact h.leave _ rfl
  | closed => exact (h.closeFile B _).leave _ rfl
  | reset => exact (h.reset _).leave _ rfl

/-- As long as no slot is claimed that somebody else has found as well, no slot has two owners. -/
theorem slots_owned_once [Inhabited κ] (B : Backend ω κ) (storage : ω) (actions : List (Action ι))
    (h : Along (step B) Undisturbed (initial storage) actions) :
    Always (step B) OwnedOnce (initial storage) actions :=
  (always_of_along (I := fun s => Accounted s ∧ FoundFree s)
    (fun _ _ _ hs hapart hstep => ⟨hs.1.step hs.2 hstep, hs.2.step hapart hstep⟩)
    ⟨initial_accounted storage, initial_foundFree storage⟩ h).mono fun _ hs => hs.1.ownedOnce

/-- Both threads find the first slot before one of them claims it. -/
theorem two_opens_share : ¬ Always (step Storage.ram) OwnedOnce (initial Storage.Ram.empty)
    [.getFd 0 "/settings/sector0".toList 0, .getFd 1 "/settings/sector1".toList 0, .claim 0,
      .checkOpen 0, .open_ 0, .claim (1 : ℕ)] := by
  intro h
  exact absurd (h.last rfl ⟨0, by decide⟩) (by decide)

instance Undisturbed.decidable [Inhabited κ] [Fintype ι] (s : State ω κ ι) (a : Action ι) :
    Decidable (Undisturbed s a) := by
  unfold Undisturbed
  split
  · split <;> infer_instance
  · infer_instance

/-- A slot that becomes free is found by one thread while another one claims the slot behind it. -/
def threeOpens : List (Action (Fin 3)) :=
  [.getFd 0 "/settings/sector0".toList 0, .claim 0, .getFd 1 "/settings/sector1".toList 0, .checkOpen 0, .open_ 0,
    .decode 0 3, .checkClose 0, .close 0, .reset 0, .getFd 2 "/settings/sector2".toList 0, .claim 1, .claim 2,
    .checkOpen 1, .checkOpen 2, .open_ 2, .open_ 1]

theorem slots_owned_once_threeOpens :
    Always (step Storage.ram) OwnedOnce (initial Storage.Ram.empty) threeOpens ∧
      (run (step Storage.ram) (initial Storage.Ram.empty) threeOpens).map
        (fun s => (s.owners ⟨0, by decide⟩, s.owners ⟨1, by decide⟩)) = some ([2], [1]) :=
  ⟨slots_owned_once Storage.ram Storage.Ram.empty threeOpens (by decide), by decide⟩

/-- Alone, the steps of a thread are those of `_open`. -/
theorem open_alone [Inhabited κ] (B : Backend ω κ) {s : State ω κ ι} {t : ι} {fd : Slot}
    {path : List Char} {flags : BitVec 32} (hidle : s.phase t = .idle)
    (hfd : vfsGetFd s.table = some fd) (hmount : (configOf κ path).1.type ≠ .none) :
    ∃ u, run (step B) s [.getFd t path flags, .claim t, .checkOpen t, .open_ t] = some u ∧
      (⟨u.table, u.world⟩ : Syscall.State ω κ) = (sysOpen B path flags ⟨s.table, s.world⟩).2 := by
  let s₁ := s.at t (.found fd path flags)
  let s₂ := (claim s₁ t fd path).at t (.claimed fd path flags)
  let s₃ := s₂.at t (.opening fd path flags)
  have hfile : s₃.table fd = (configOf κ path).1 := Function.update_self fd _ s.table
  have h₁ : step B s (.getFd t path flags) = some s₁ := by simp only [step, hidle, hfd]; rfl
  have h₂ : step B s₁ (.claim t) = some s₂ := by simp only [step, s₁, State.at_phase]; rfl
  have h₃ : step B s₂ (.checkOpen t) = some s₃ := by
    obtain ⟨m, hm⟩ : ∃ m, vfsGetMutex (s₂.table fd).type = some m := by
      rw [show s₂.table fd = (configOf κ path).1 from hfile]
      cases htype : (configOf κ path).1.type with
      | none => exact absurd htype hmount
      | _ => exact ⟨_, rfl⟩
    simp only [step, s₂, State.at_phase]
    change some (withMutex s₂ t fd _) = _
    rw [withMutex, hm]
  have h₄ : step B s₃ (.open_ t) = some ((openFile B s₃ fd path flags).at t .idle) := by
    simp only [step, s₃, State.at_phase]
  refine ⟨_, run_cons_some.mpr ⟨s₁, h₁, run_cons_some.mpr ⟨s₂, h₂, run_cons_some.mpr ⟨s₃, h₃,
    run_cons_some.mpr ⟨_, h₄, rfl⟩⟩⟩⟩, ?_⟩
  simp only [sysOpen, hfd]
  rw [vfsOpen, openFile, hfile]
  rcases (configOf κ path).1.type.cases_mount with hfx | hraw | hnone
  · have hslot (file : VfsFile κ) : Function.update s₃.table fd file = Function.update s.table fd file :=
      Function.update_idem _ _ _
    rw [byMount_fx hfx, byMount_fx hfx]
    simp only [State.at, State.put, hslot]
    rfl
  · rw [byMount_raw hraw, byMount_raw hraw]
    rfl
  · exact absurd hnone hmount

end Runs

end EtherBench.Vfs.Slots
