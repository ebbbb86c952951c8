import Mathlib.Data.List.Basic

/-! # Line editors

A line editor holds the characters typed so far, up to a bound. A key adds a character,
takes the last one back, hands the line over and starts a new one, or does nothing.
-/

namespace EtherBench.Library.LineEditor

inductive Key where
  | print
  | erase
  | submit
  | ignore
  deriving DecidableEq

variable {α : Type*} {key : α → Key} {capacity : ℕ}

/-- The characters of a line, oldest first: all of them printed, and no more than fit. -/
structure Line (key : α → Key) (capacity : ℕ) where
  text : List α
  bounded : text.length ≤ capacity
  printed : ∀ a ∈ text, key a = .print

namespace Line

def empty : Line key capacity := ⟨[], Nat.zero_le _, by simp⟩

/-- A character that does not fit any more is dropped. -/
def push (l : Line key capacity) (a : α) (ha : key a = .print) : Line key capacity :=
  if hlen : l.text.length < capacity then
    { text := l.text ++ [a]
      bounded := by
        rw [List.length_append]
        exact hlen
      printed := by
        intro b hb
        rcases List.mem_append.mp hb with hold | hnew
        · exact l.printed b hold
        · rw [List.mem_singleton.mp hnew]
          exact ha }
  else l

def pop (l : Line key capacity) : Line key capacity where
  text := l.text.dropLast
  bounded := by
    rw [List.length_dropLast]
    exact Nat.le_trans (Nat.sub_le _ _) l.bounded
  printed a ha := l.printed a (List.dropLast_subset l.text ha)

/-- One key: the line that follows and the line that it hands over. An empty line is not
handed over. -/
def feed (l : Line key capacity) (a : α) : Line key capacity × List (Line key capacity) :=
  match ha : key a with
  | .print => (l.push a ha, [])
  | .erase => (l.pop, [])
  | .submit => if l.text = [] then (l, []) else (empty, [l])
  | .ignore => (l, [])

theorem feed_print {l : Line key capacity} {a : α} (ha : key a = .print) :
    l.feed a = (l.push a ha, []) := by
  unfold feed
  split <;> simp_all

theorem feed_erase {l : Line key capacity} {a : α} (ha : key a = .erase) : l.feed a = (l.pop, []) := by
  unfold feed
  split <;> simp_all

theorem feed_submit {l : Line key capacity} {a : α} (ha : key a = .submit) :
    l.feed a = if l.text = [] then (l, []) else (empty, [l]) := by
  unfold feed
  split <;> simp_all

theorem feed_ignore {l : Line key capacity} {a : α} (ha : key a = .ignore) : l.feed a = (l, []) := by
  unfold feed
  split <;> simp_all

/-- The line after a sequence of keys, and the lines handed over on the way. -/
def type : Line key capacity → List α → Line key capacity × List (Line key capacity)
  | l, [] => (l, [])
  | l, a :: as => ((type (l.feed a).1 as).1, (l.feed a).2 ++ (type (l.feed a).1 as).2)

@[simp] theorem type_nil (l : Line key capacity) : l.type [] = (l, []) := rfl

theorem type_cons (l : Line key capacity) (a : α) (as : List α) :
    l.type (a :: as) = (((l.feed a).1.type as).1, (l.feed a).2 ++ ((l.feed a).1.type as).2) := rfl

/-- Typing can be cut anywhere. -/
theorem type_append (l : Line key capacity) (as bs : List α) :
    l.type (as ++ bs) = (((l.type as).1.type bs).1, (l.type as).2 ++ ((l.type as).1.type bs).2) := by
  induction as generalizing l with
  | nil => simp
  | cons a as ih =>
    rw [List.cons_append, type_cons, ih, type_cons, List.append_assoc]

theorem type_ignored (l : Line key capacity) {as : List α} (h : ∀ a ∈ as, key a = .ignore) :
    l.type as = (l, []) := by
  induction as with
  | nil => rfl
  | cons a as ih =>
    rw [type_cons, feed_ignore (h a List.mem_cons_self), ih fun b hb => h b (List.mem_cons_of_mem a hb)]
    rfl

theorem feed_ne_nil {l m : Line key capacity} {a : α} (h : m ∈ (l.feed a).2) : m.text ≠ [] := by
  cases ha : key a with
  | submit =>
    rw [feed_submit ha] at h
    split at h
    · cases h
    · next hne =>
      rw [List.mem_singleton.mp h]
      exact hne
  | print => simp [feed_print ha] at h
  | erase => simp [feed_erase ha] at h
  | ignore => simp [feed_ignore ha] at h

theorem type_ne_nil {l m : Line key capacity} {as : List α} (h : m ∈ (l.type as).2) : m.text ≠ [] := by
  induction as generalizing l with
  | nil => cases h
  | cons a as ih =>
    rw [type_cons] at h
    rcases List.mem_append.mp h with hfirst | hrest
    · exact feed_ne_nil hfirst
    · exact ih hrest

end Line

end EtherBench.Library.LineEditor
