import Mathlib.Data.List.Chain
import Mathlib.Logic.Function.Basic

/-! # Circular lists and circular buffers

A circular list is threaded through its nodes by two links each, and is changed by a few assignments to the
links of neighbours. A circular buffer is a window on an array that comes round.
-/

namespace EtherBench.Library.Circular

/-! ## Circular lists -/

structure Links (α : Type*) where
  next : α → α
  previous : α → α

section Lists
variable {α : Type*} {l l' : Links α} {x y head : α} {xs ys rest : List α}

def Linked (l : Links α) (x y : α) : Prop := l.next x = y ∧ l.previous y = x

/-- The nodes from the head on, the last of which is linked to the head again. -/
def IsRing (l : Links α) : List α → Prop
  | [] => True
  | x :: xs => (x :: xs).Nodup ∧ (x :: xs ++ [x]).IsChain (Linked l)

theorem IsRing.nodup (h : IsRing l xs) : xs.Nodup := by
  cases xs with
  | nil => exact List.nodup_nil
  | cons x xs => exact h.1

/-- A ring can be entered at each of its nodes. -/
theorem isRing_append_comm : IsRing l (xs ++ ys) ↔ IsRing l (ys ++ xs) := by
  cases xs with
  | nil => simp
  | cons x xs =>
    cases ys with
    | nil => simp
    | cons y ys =>
      have hleft : x :: (xs ++ y :: ys) ++ [x] = x :: xs ++ y :: (ys ++ [x]) := by simp
      have hright : y :: (ys ++ x :: xs) ++ [y] = y :: ys ++ x :: (xs ++ [y]) := by simp
      have hperm : (x :: xs ++ y :: ys).Perm (y :: ys ++ x :: xs) := List.perm_append_comm
      have hchain : (y :: ys ++ x :: (xs ++ [y])).IsChain (Linked l) ↔ (y :: ys ++ [x]).IsChain (Linked l) ∧
          (x :: (xs ++ [y])).IsChain (Linked l) := List.isChain_split
      rw [List.cons_append, List.cons_append] at hperm
      rw [List.cons_append, List.cons_append, IsRing, IsRing, hperm.nodup_iff, hleft, hright, List.isChain_split,
        hchain, And.comm (a := (x :: xs ++ [y]).IsChain _)]
      rfl

theorem isChain_congr (h : xs.IsChain (Linked l)) (hnext : ∀ a ∈ xs.dropLast, l'.next a = l.next a)
    (hprevious : ∀ b ∈ xs.tail, l'.previous b = l.previous b) : xs.IsChain (Linked l') := by
  rw [List.isChain_iff_forall₂, List.forall₂_iff_zip] at h ⊢
  refine ⟨h.1, fun {a b} hab => ?_⟩
  obtain ⟨ha, hb⟩ := List.of_mem_zip hab
  exact ⟨(hnext a ha).trans (h.2 hab).1, (hprevious b hb).trans (h.2 hab).2⟩

theorem IsRing.congr (h : IsRing l xs) (hsame : ∀ a ∈ xs, l'.next a = l.next a ∧ l'.previous a = l.previous a) :
    IsRing l' xs := by
  cases xs with
  | nil => trivial
  | cons x xs =>
    refine ⟨h.1, isChain_congr h.2 (fun a ha => (hsame a ?_).1) fun b hb => (hsame b ?_).2⟩
    · rwa [List.dropLast_concat] at ha
    · simpa [or_comm] using hb

theorem IsRing.next_head (h : IsRing l (x :: y :: rest)) : l.next x = y := (List.isChain_cons_cons.mp h.2).1.1

section Changes
variable [DecidableEq α]

def alone (l : Links α) (x : α) : Links α where
  next := Function.update l.next x x
  previous := Function.update l.previous x x

theorem isRing_alone (l : Links α) (x : α) : IsRing (alone l x) [x] := by
  simp [IsRing, Linked, alone]

/-- A node goes between the head and the last node. -/
def linkBefore (l : Links α) (head x : α) : Links α :=
  let previous := l.previous head
  { next := Function.update (Function.update l.next x head) previous x
    previous := Function.update (Function.update l.previous x previous) head x }

theorem IsRing.linkBefore (h : IsRing l (head :: rest)) (hx : x ∉ head :: rest) :
    IsRing (linkBefore l head x) (x :: head :: rest) := by
  obtain ⟨hnodup, hchain⟩ := h
  refine ⟨List.nodup_cons.mpr ⟨hx, hnodup⟩, ?_⟩
  obtain ⟨init, last, hlast⟩ : ∃ init last, head :: rest = init ++ [last] :=
    ⟨_, _, (List.dropLast_append_getLast (List.cons_ne_nil head rest)).symm⟩
  have hout : last ≠ x := fun heq => hx (by simp [hlast, heq])
  have hinit : last ∉ init := by
    rw [hlast, List.nodup_append] at hnodup
    exact fun hin => hnodup.2.2 last hin last (by simp) rfl
  rw [hlast, List.append_assoc] at hchain
  obtain ⟨hbefore, hlink, -⟩ := List.isChain_append_cons_cons.mp hchain
  have hprevious : l.previous head = last := hlink.2
  rw [show x :: head :: rest ++ [x] = x :: (head :: rest ++ [x]) from rfl, List.cons_append, List.isChain_cons_cons,
    ← List.cons_append, hlast, List.append_assoc]
  refine ⟨?_, List.isChain_append_cons_cons.mpr ⟨isChain_congr hbefore (fun a ha => ?_) (fun b hb => ?_), ?_, ?_⟩⟩
  · simp [Linked, Circular.linkBefore, hprevious, hout.symm]
  · have hne : a ≠ last ∧ a ≠ x := by
      have hin : a ∈ init := by simpa using ha
      exact ⟨fun heq => hinit (heq ▸ hin), fun heq => hx (by simp [hlast, ← heq, hin])⟩
    simp [Circular.linkBefore, hprevious, hne]
  · have hne : b ≠ head ∧ b ≠ x := by
      have hin : b ∈ rest := by simpa [← hlast] using hb
      exact ⟨fun heq => (List.nodup_cons.mp hnodup).1 (heq ▸ hin), fun heq => hx (by simp [← heq, hin])⟩
    simp [Circular.linkBefore, hne]
  · have hhead : x ≠ head := fun heq => hx (by simp [heq])
    simp [Linked, Circular.linkBefore, hprevious, hhead]
  · exact List.isChain_singleton x

/-- The neighbours of a node are linked past it. -/
def unlink (l : Links α) (x : α) : Links α :=
  let next := l.next x
  let previous := l.previous x
  { next := Function.update l.next previous next
    previous := Function.update l.previous next previous }

theorem IsRing.unlink_head (h : IsRing l (x :: head :: rest)) : IsRing (unlink l x) (head :: rest) := by
  obtain ⟨hnodup, hchain⟩ := h
  replace hnodup := (List.nodup_cons.mp hnodup).2
  refine ⟨hnodup, ?_⟩
  obtain ⟨init, last, hlast⟩ : ∃ init last, head :: rest = init ++ [last] :=
    ⟨_, _, (List.dropLast_append_getLast (List.cons_ne_nil head rest)).symm⟩
  have hinit : last ∉ init := by
    rw [hlast, List.nodup_append] at hnodup
    exact fun hin => hnodup.2.2 last hin last (by simp) rfl
  rw [show x :: head :: rest ++ [x] = x :: (head :: rest ++ [x]) from rfl, List.cons_append, List.isChain_cons_cons,
    ← List.cons_append, hlast, List.append_assoc] at hchain
  obtain ⟨hfirst, hchain⟩ := hchain
  obtain ⟨hbefore, hlink, -⟩ := List.isChain_append_cons_cons.mp hchain
  have hnext : l.next x = head := hfirst.1
  have hprevious : l.previous x = last := hlink.2
  rw [hlast, List.append_assoc]
  refine List.isChain_append_cons_cons.mpr ⟨isChain_congr hbefore (fun a ha => ?_) (fun b hb => ?_), ?_, ?_⟩
  · have hne : a ≠ last := fun heq => hinit (by simpa [heq] using ha)
    simp [Circular.unlink, hprevious, hne]
  · have hin : b ∈ rest := by simpa [← hlast] using hb
    have hne : b ≠ head := fun heq => (List.nodup_cons.mp hnodup).1 (heq ▸ hin)
    simp [Circular.unlink, hnext, hne]
  · simp [Linked, Circular.unlink, hnext, hprevious]
  · exact List.isChain_singleton head

theorem IsRing.unlink (h : IsRing l (xs ++ x :: ys)) (hne : xs ++ ys ≠ []) : IsRing (unlink l x) (xs ++ ys) := by
  rw [isRing_append_comm, List.cons_append] at h
  rw [isRing_append_comm]
  cases hrest : ys ++ xs with
  | nil =>
    obtain ⟨rfl, rfl⟩ := List.append_eq_nil_iff.mp hrest
    exact absurd rfl hne
  | cons head rest =>
    rw [hrest] at h
    exact h.unlink_head

end Changes

end Lists

/-! ## Circular buffers -/

section Buffers
variable {β : Type*} {slot slot' : ℕ → β} {capacity start count : ℕ}

def window (slot : ℕ → β) (capacity start count : ℕ) : List β :=
  (List.range count).map fun i => slot ((start + i) % capacity)

@[simp] theorem length_window : (window slot capacity start count).length = count := by simp [window]

theorem window_congr (h : ∀ i < count, slot' ((start + i) % capacity) = slot ((start + i) % capacity)) :
    window slot' capacity start count = window slot capacity start count :=
  List.map_congr_left fun i hi => h i (List.mem_range.mp hi)

theorem window_succ : window slot capacity start (count + 1) =
    window slot capacity start count ++ [slot ((start + count) % capacity)] := by
  simp [window, List.range_succ]

theorem window_cons : window slot capacity start (count + 1) =
    slot (start % capacity) :: window slot capacity ((start + 1) % capacity) count := by
  rw [window, List.range_succ_eq_map, List.map_cons, List.map_map, window]
  refine congrArg₂ _ rfl (List.map_congr_left fun i _ => ?_)
  simp [Nat.add_assoc, Nat.add_comm 1]

/-- The slot behind the window is not in it, as long as the window is not all there is. -/
theorem slot_ne {i : ℕ} (hi : i < count) (hcount : count < capacity) :
    (start + i) % capacity ≠ (start + count) % capacity := by
  intro heq
  have hdvd := Nat.dvd_of_mod_eq_zero (Nat.sub_mod_eq_zero_of_mod_eq heq.symm)
  have hle := Nat.le_of_dvd (by omega) hdvd
  omega

end Buffers

end EtherBench.Library.Circular
