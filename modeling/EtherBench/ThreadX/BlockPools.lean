import EtherBench.Library.Transition
import EtherBench.ThreadX.Objects

/-! # How many blocks a pool has

`tx_block_pool_create` cuts a memory area into blocks, each behind a link of the size of a
pointer. The number of blocks is all that decides how long allocations keep succeeding.
-/

namespace EtherBench.ThreadX.BlockPools
open Library.Transition

/-- `sizeof(ALIGN_TYPE)` and `sizeof(UCHAR *)` of the target. -/
def alignTypeSize : ℕ := 4
def pointerSize : ℕ := 4

def alignUp (align size : ℕ) : ℕ := (size + align - 1) / align * align

/-- The loop that chains the blocks, from the first address on. -/
def linkBlocks (stride : ℕ) : ℕ → ℕ → List ℕ
  | _, 0 => []
  | address, blocks + 1 => address :: linkBlocks stride (address + stride) blocks

@[simp] theorem length_linkBlocks (stride address blocks : ℕ) :
    (linkBlocks stride address blocks).length = blocks := by
  induction blocks generalizing address with
  | zero => rfl
  | succ blocks ih => rw [linkBlocks, List.length_cons, ih]

/-- `_tx_block_pool_create`, without the list of all pools. -/
def txBlockPoolCreate (blockSize poolStart poolSize : ℕ) : BlockPool ℕ :=
  let blockSize := alignUp alignTypeSize blockSize
  let poolSize := poolSize / alignTypeSize * alignTypeSize
  let totalBlocks := poolSize / (blockSize + pointerSize)
  ⟨linkBlocks (blockSize + pointerSize) poolStart totalBlocks⟩

variable {β : Type*} [DecidableEq β]

/-- A pool and the blocks of it that are allocated. -/
structure Loans (β : Type*) where
  pool : BlockPool β
  allocated : List β

inductive Action (β : Type*) where
  | allocate
  | release (block : β)

def step (s : Loans β) : Action β → Option (Loans β)
  | .allocate =>
    match s.pool.txBlockAllocate with
    | none => some s
    | some (block, rest) => some ⟨rest, block :: s.allocated⟩
  | .release block =>
    if block ∈ s.allocated then some ⟨s.pool.txBlockRelease block, s.allocated.erase block⟩ else none

/-- As long as fewer than `depth` blocks are allocated, the next allocation succeeds. -/
def Serves (depth : ℕ) (pool : BlockPool β) : Prop :=
  ∀ actions s, run step ⟨pool, []⟩ actions = some s → s.allocated.length < depth →
    s.pool.txBlockAllocate ≠ none

/-- Blocks neither appear nor disappear. -/
theorem step_length {s t : Loans β} {a : Action β} (h : step s a = some t) :
    t.pool.availableList.length + t.allocated.length =
      s.pool.availableList.length + s.allocated.length := by
  rcases s with ⟨⟨available⟩, allocated⟩
  cases a with
  | allocate =>
    cases available with
    | nil =>
      cases h
      rfl
    | cons block rest =>
      cases h
      simp only [List.length_cons]
      omega
  | release block =>
    obtain ⟨hmem, h⟩ := Option.ite_none_right_eq_some.mp h
    cases h
    have hpos : 0 < allocated.length := List.length_pos_of_mem hmem
    simp only [BlockPool.txBlockRelease, List.length_cons, List.length_erase_of_mem hmem]
    omega

theorem run_length {pool : BlockPool β} {actions : List (Action β)} {s : Loans β}
    (h : run step ⟨pool, []⟩ actions = some s) :
    s.pool.availableList.length + s.allocated.length = pool.availableList.length := by
  have hstep (t : Loans β) (a : Action β) (u : Loans β)
      (ht : t.pool.availableList.length + t.allocated.length = pool.availableList.length)
      (htu : step t a = some u) :
      u.pool.availableList.length + u.allocated.length = pool.availableList.length := by
    rw [step_length htu, ht]
  exact run_invariant hstep rfl h

theorem run_drain (available allocated : List β) :
    run step ⟨⟨available⟩, allocated⟩ (List.replicate available.length .allocate) =
      some ⟨⟨[]⟩, available.reverse ++ allocated⟩ := by
  induction available generalizing allocated with
  | nil => rfl
  | cons block rest ih =>
    rw [List.length_cons, List.replicate_succ, run_cons, List.reverse_cons, List.append_assoc]
    exact ih (block :: allocated)

theorem serves_iff {depth : ℕ} {pool : BlockPool β} :
    Serves depth pool ↔ depth ≤ pool.availableList.length := by
  constructor
  · intro h
    by_contra hfew
    have hdrain := run_drain pool.availableList []
    apply h _ _ hdrain _ rfl
    rw [List.append_nil, List.length_reverse]
    omega
  · intro h actions s hrun hless hnone
    have hlen := run_length hrun
    rcases s with ⟨⟨_ | ⟨block, rest⟩⟩, allocated⟩
    · simp only [List.length_nil] at hlen hless
      omega
    · cases hnone

end EtherBench.ThreadX.BlockPools
