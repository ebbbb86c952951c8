import EtherBench.Library.Holders

/-! # The ThreadX objects the firmware shares

A block pool is its list of available blocks, last released first, and a queue is the
list of its messages, oldest first. Every caller uses `TX_NO_WAIT`, so no thread is ever
suspended on a pool and a full queue refuses the message.
-/

namespace EtherBench.ThreadX
open Library.Holders

/-- `TX_BLOCK_POOL`, as far as allocation and release read it. -/
structure BlockPool (β : Type*) where
  availableList : List β
  deriving DecidableEq

namespace BlockPool
variable {β : Type*}

/-- `tx_block_allocate` with `TX_NO_WAIT`. -/
def txBlockAllocate (pool : BlockPool β) : Option (β × BlockPool β) :=
  match pool.availableList with
  | [] => none
  | block :: rest => some (block, ⟨rest⟩)

/-- `tx_block_release`: the block goes back to the head of the available list. -/
def txBlockRelease (pool : BlockPool β) (block : β) : BlockPool β := ⟨block :: pool.availableList⟩

/-- Allocating and releasing the same block is the identity on the pool. -/
theorem txBlockRelease_allocate {pool rest : BlockPool β} {block : β}
    (h : pool.txBlockAllocate = some (block, rest)) : rest.txBlockRelease block = pool := by
  rcases pool with ⟨_ | ⟨b, bs⟩⟩
  · cases h
  · cases h
    rfl

variable [DecidableEq β]

/-- How often a block is available: at most once in every pool the firmware reaches. -/
def free (pool : BlockPool β) (b : β) : ℕ := pool.availableList.count b

theorem free_allocate {pool rest : BlockPool β} {block : β}
    (h : pool.txBlockAllocate = some (block, rest)) (b : β) :
    pool.free b = rest.free b + claim (some block) b := by
  rw [← txBlockRelease_allocate h]
  simp [free, txBlockRelease, count_cons_claim, Nat.add_comm]

theorem ne_of_allocate {pool rest : BlockPool β} {block b : β}
    (h : pool.txBlockAllocate = some (block, rest)) (hb : pool.free b = 0) : b ≠ block := by
  rintro rfl
  have hone := free_allocate h b
  rw [claim_self] at hone
  omega

@[simp] theorem free_release (pool : BlockPool β) (block b : β) :
    (pool.txBlockRelease block).free b = pool.free b + claim (some block) b := by
  simp [free, txBlockRelease, count_cons_claim, Nat.add_comm]

end BlockPool

variable {α : Type*}

/-- `tx_queue_send` with `TX_NO_WAIT` to a queue of `depth` messages. -/
def txQueueSend (depth : ℕ) (queue : List α) (message : α) : Option (List α) :=
  if queue.length < depth then some (queue ++ [message]) else none

/-- `tx_queue_receive` on a queue that holds a message; an empty queue keeps the caller waiting. -/
def txQueueReceive : List α → Option (α × List α)
  | [] => none
  | message :: rest => some (message, rest)

theorem txQueueSend_eq_some {depth : ℕ} {queue sent : List α} {message : α} :
    txQueueSend depth queue message = some sent ↔ queue.length < depth ∧ sent = queue ++ [message] := by
  unfold txQueueSend
  split
  · next h => simp [h, eq_comm]
  · next h => simp [h]

theorem txQueueReceive_eq_some {queue rest : List α} {message : α} :
    txQueueReceive queue = some (message, rest) ↔ queue = message :: rest := by
  cases queue <;> simp [txQueueReceive]

end EtherBench.ThreadX
