import Mathlib
import EtherBench.Parser.Dispatch

/-! # The arguments of a shell line

`parser_task` lower-cases a line, classifies it and only then splits the command word off.
All three work on the whole buffer, so the argument text has a part in each of them.
-/

namespace EtherBench.Parser.ShellLines
open Command Generator Dispatch

variable {S H : Type*}

theorem toLower_eq_self_iff (c : Char) : c.toLower = c ↔ c.isUpper = false := by
  constructor
  · intro heq
    rw [← heq]
    exact Char.isUpper_toLower_eq_false c
  · intro hlower
    apply Char.toLower_eq_of_not_isUpper
    rw [hlower]
    exact Bool.false_ne_true

theorem normalise_eq_self_iff {s : List Char} : normalise s = s ↔ ∀ c ∈ s, c.isUpper = false := by
  rw [normalise]
  nth_rewrite 2 [← List.map_id s]
  rw [List.map_inj_left]
  exact forall₂_congr fun c _ => toLower_eq_self_iff c

theorem normalise_normalise (s : List Char) : normalise (normalise s) = normalise s := by
  rw [normalise_eq_self_iff]
  intro c hc
  obtain ⟨d, -, rfl⟩ := List.mem_map.mp hc
  exact Char.isUpper_toLower_eq_false d

/-- A word that the parser can look up as it stands. -/
structure Typable (word : List Char) : Prop where
  lower : ∀ c ∈ word, c.isUpper = false
  fits : FitsLine word

/-- The argument text of a line, as far as the message holds it. -/
def storedArgs (word args : List Char) : List Char :=
  (cString args).take (shellLineLength - 1 - (word.length + 1))

/-- The head that is looked up is the word of the line exactly when the word is typable. -/
theorem lookedUp_word_iff (word : List Char) (args : Option (List Char)) (stream : S) :
    (splitArgs (normalise (fillRequest stream (word ++ argText args)).command)).1 = word ↔ Typable word := by
  constructor
  · intro h
    have hlower : normalise word = word := by
      conv_lhs => rw [← h]
      rw [splitArgs_head, normalise_takeWhile (by decide), normalise_normalise, ← splitArgs_head, h]
    exact ⟨normalise_eq_self_iff.mp hlower, (lookedUp_eq_iff hlower args stream).mp h⟩
  · intro h
    exact (lookedUp_eq_iff (normalise_eq_self_iff.mpr h.lower) args stream).mpr h.fits

theorem fillRequest_word {word : List Char} (h : FitsLine word) (args : List Char) (stream : S) :
    (fillRequest stream (word ++ argText (some args))).command =
      word ++ (' ' :: cString args).take (shellLineLength - 1 - word.length) := by
  have hkeep : ∀ c ∈ word, decide (c ≠ '\x00') = true := by
    intro c hc
    rw [decide_eq_true_eq]
    rintro rfl
    exact h.2.1 hc
  have hlen := h.2.2
  rw [fillRequest, cString, List.takeWhile_append_of_pos hkeep, List.take_append,
    List.take_of_length_le (by omega), argText, List.takeWhile_cons_of_pos (by decide), cString]

/-- Behind a word without tokens, the line is marked by its arguments alone. -/
theorem markedScpi_iff {word : List Char} (h : FitsLine word) (hplain : ∀ token ∈ tokens, token ∉ word)
    (args : List Char) (stream : S) :
    MarkedScpi (fillRequest stream (word ++ argText (some args))).command ↔
      ∃ token ∈ tokens, token ∈ storedArgs word args := by
  rw [fillRequest_word h, MarkedScpi]
  apply exists_congr
  intro token
  apply and_congr_right
  intro htoken
  have hnot := hplain token htoken
  have hblank : token ≠ ' ' := by
    rintro rfl
    exact absurd htoken (by decide)
  have hrest : token ∈ (' ' :: cString args).take (shellLineLength - 1 - word.length) ↔
      token ∈ storedArgs word args := by
    rw [storedArgs, ← Nat.sub_sub]
    cases shellLineLength - 1 - word.length with
    | zero => simp
    | succ n => simp [hblank]
  have hhead : (word ++ (' ' :: cString args).take (shellLineLength - 1 - word.length)).head? ≠ some token := by
    cases word with
    | nil => simp [shellLineLength, hblank.symm]
    | cons c word =>
      rw [List.cons_append, List.head?_cons, ne_eq, Option.some.injEq]
      rintro rfl
      exact hnot List.mem_cons_self
  rw [and_iff_left hhead, List.mem_append, or_iff_right hnot, hrest]

/-- The parser looks the word up in the shell table and calls the handler of `key`. -/
def ShellDispatched (t : Tables Toml) (key : List Char) (handler : Toml) (msg : ParserInput S)
    (retval : ℤ) : Prop :=
  isShell (normalise msg.command) = true ∧
    ∃ args, parserTask t (some msg) retval = .executed ⟨key, some handler⟩ args retval

theorem shellDispatched_iff_lookup {t : Tables Toml} {key : List Char} {handler : Toml} {stream : S}
    {command : List Char} {retval : ℤ} :
    ShellDispatched t key handler ⟨some stream, command⟩ retval ↔
      isShell (normalise command) = true ∧
        t.findShellCommand (splitArgs (normalise command)).1 = some ⟨key, some handler⟩ := by
  unfold ShellDispatched
  apply and_congr_right
  intro hshell
  simp only [parserTask, lookup, hshell, if_true]
  cases t.findShellCommand (splitArgs (normalise command)).1 with
  | none => simp
  | some entry => simp

variable {lower : List Char → List Char}

/-- A key of the shell table and its arguments are dispatched exactly when the key is a word that
a line can carry and none of the three tokens is among the arguments of the line. -/
theorem shellDispatched_iff (build : Build lower) {key : List Char} {handler : Toml}
    (hkey : (key, handler) ∈ build.entries.shell.items)
    (hplain : ∀ token ∈ tokens, token ∉ cBytes key) (args : List Char) (stream : S) (retval : ℤ) :
    ShellDispatched build.tables (cBytes key) handler
        (fillRequest stream (cBytes key ++ argText (some args))) retval ↔
      Typable (cBytes key) ∧ ∀ token ∈ tokens, token ∉ storedArgs (cBytes key) args := by
  have hword := lookedUp_word_iff (cBytes key) (some args) stream
  have hfound : build.tables.findShellCommand (splitArgs (normalise
      (fillRequest stream (cBytes key ++ argText (some args))).command)).1 =
      some ⟨cBytes key, some handler⟩ ↔ Typable (cBytes key) := by
    rw [← hword]
    constructor
    · exact fun h => (gperfFind_name h).symm
    · intro h
      rw [h]
      exact gperfFind_of_mem hkey
  have hshell : Typable (cBytes key) →
      (isShell (normalise (fillRequest stream (cBytes key ++ argText (some args))).command) = true ↔
        ∀ token ∈ tokens, token ∉ storedArgs (cBytes key) args) := by
    intro h
    rw [← Bool.not_eq_false, isShell_normalise, markedScpi_iff h.fits hplain]
    simp only [not_exists, not_and]
  rw [fillRequest] at *
  rw [shellDispatched_iff_lookup, hfound, and_comm]
  exact and_congr_right hshell

def listBuild : Build (List.map Char.toLower) where
  tree := .cons ['l', 's'] (.table (.cons shellKey (.value ['l', 's'])
    (.cons handlerShell (.value "shell_ls".toList) .nil))) .nil
  entries := ⟨Dict.empty, ⟨[(['l', 's'], .value "shell_ls".toList)], by simp⟩⟩
  generated := rfl

theorem list_path_dispatched :
    ShellDispatched listBuild.tables (cBytes ['l', 's']) (.value "shell_ls".toList)
      (fillRequest () (cBytes ['l', 's'] ++ argText (some ['/', 's', 'd']))) 0 :=
  (shellDispatched_iff listBuild List.mem_cons_self (List.all_iff_forall_prop.mp (by decide))
      ['/', 's', 'd'] () 0).mpr
    ⟨⟨List.all_iff_forall_prop.mp (by decide), by decide, by decide, by decide⟩,
      List.all_iff_forall_prop.mp (by decide)⟩

def capitalBuild : Build (List.map Char.toLower) where
  tree := .cons ['l', 's'] (.table (.cons shellKey (.value ['L', 'S'])
    (.cons handlerShell (.value "shell_ls".toList) .nil))) .nil
  entries := ⟨Dict.empty, ⟨[(['L', 'S'], .value "shell_ls".toList)], by simp⟩⟩
  generated := rfl

/-- A star in the argument sends the line to the SCPI table, and a name in capitals is not the
word that is looked up. -/
theorem list_star_not_dispatched :
    (¬ ∀ (lower : List Char → List Char) (build : Build lower) (key : List Char) (handler : Toml),
      (key, handler) ∈ build.entries.shell.items → (∀ token ∈ tokens, token ∉ cBytes key) →
      ∀ (args : List Char) (stream : Unit) (retval : ℤ),
        ShellDispatched build.tables (cBytes key) handler
          (fillRequest stream (cBytes key ++ argText (some args))) retval) ∧
      ¬ ShellDispatched capitalBuild.tables (cBytes ['L', 'S']) (.value "shell_ls".toList)
          (fillRequest () (cBytes ['L', 'S'] ++ argText (some []))) 0 := by
  constructor
  · intro h
    have hplain : ∀ token ∈ tokens, token ∉ cBytes ['l', 's'] := List.all_iff_forall_prop.mp (by decide)
    have hstar := h _ listBuild _ _ List.mem_cons_self hplain ['*'] () 0
    exact absurd hstar.1 (by decide)
  · rintro ⟨-, args, h⟩
    cases h

section Arguments

/-- A line that the buffer of a stream holds with its terminator. -/
structure Accepted (line : List Char) : Prop where
  noTerminator : '\x00' ∉ line
  fits : line.length < shellLineLength

def typedArgs (line : List Char) : List Char := (line.dropWhile (· ≠ ' ')).drop 1

theorem Accepted.stored {line : List Char} (h : Accepted line) (stream : S) :
    fillRequest stream line = ⟨some stream, line⟩ := by
  have hkeep : ∀ c ∈ line, decide (c ≠ '\x00') = true := by
    intro c hc
    rw [decide_eq_true_eq]
    rintro rfl
    exact h.noTerminator hc
  have hfits := h.fits
  rw [fillRequest, cString, List.takeWhile_eq_self_iff.mpr hkeep, List.take_of_length_le (by omega)]

theorem drop_strchr (s : List Char) :
    (match strchr s ' ' with
      | some i => s.drop (i + 1)
      | none => []) = typedArgs s := by
  induction s with
  | nil => rfl
  | cons c s ih =>
    rw [strchr_cons, typedArgs]
    by_cases hc : c = ' '
    · simp [hc]
    · rw [if_neg hc, List.dropWhile_cons_of_pos (by simpa using hc), ← typedArgs, ← ih]
      cases strchr s ' ' with
      | none => rfl
      | some i => rfl

theorem splitArgs_args {s : List Char} (h : s.length < shellLineLength) :
    (splitArgs s).2 = typedArgs s := by
  have hdrop := drop_strchr s
  rw [splitArgs]
  cases hfind : strchr s ' ' with
  | none =>
    rw [hfind] at hdrop
    exact hdrop
  | some i =>
    rw [hfind] at hdrop
    rw [← hdrop]
    apply List.take_of_length_le
    rw [List.length_drop]
    omega

theorem typedArgs_normalise (s : List Char) : typedArgs (normalise s) = normalise (typedArgs s) := by
  induction s with
  | nil => rfl
  | cons c s ih =>
    rw [show normalise (c :: s) = c.toLower :: normalise s from rfl, typedArgs, typedArgs]
    by_cases hc : c = ' '
    · subst hc
      rfl
    · have hlower : c.toLower ≠ ' ' := mt (toLower_eq_iff (by decide)).mp hc
      rw [List.dropWhile_cons_of_pos (by simpa using hlower),
        List.dropWhile_cons_of_pos (by simpa using hc)]
      exact ih

theorem lookup_args (t : Tables H) {line : List Char} (h : Accepted line) :
    (lookup t line).2 = normalise (typedArgs line) := by
  have hlen : (normalise line).length < shellLineLength := by
    rw [normalise, List.length_map]
    exact h.fits
  rw [lookup, splitArgs_args hlen, typedArgs_normalise]

theorem lookup_congr (t : Tables H) {command command' : List Char}
    (h : normalise command = normalise command') : lookup t command = lookup t command' := by
  simp only [lookup, h]

theorem Accepted.executed {line : List Char} (h : Accepted line) {t : Tables H} {stream : S} {retval : ℤ}
    {entry : CommandEntry H} {args : List Char} :
    parserTask t (some (fillRequest stream line)) retval = .executed entry args retval ↔
      lookup t line = (some entry, args) := by
  rw [h.stored stream]
  simp only [parserTask]
  rcases lookup t line with ⟨_ | entry', args'⟩ <;> simp

/-- What a line asks for: its arguments as they were typed, and a command word that may be
written in any case. -/
structure Delivered (t : Tables H) (stream : S) (retval : ℤ) (line : List Char) : Prop where
  verbatim : ∀ entry args,
    parserTask t (some (fillRequest stream line)) retval = .executed entry args retval →
      args = typedArgs line
  caseless : ∀ entry args word, normalise word = normalise (line.takeWhile (· ≠ ' ')) →
    parserTask t (some (fillRequest stream line)) retval = .executed entry args retval →
      parserTask t (some (fillRequest stream (word ++ line.dropWhile (· ≠ ' ')))) retval =
        .executed entry args retval

/-- The word of a line can be replaced by one that differs in case only. -/
theorem Accepted.respell {line word : List Char} (h : Accepted line)
    (hword : normalise word = normalise (line.takeWhile (· ≠ ' '))) :
    Accepted (word ++ line.dropWhile (· ≠ ' ')) ∧
      normalise (word ++ line.dropWhile (· ≠ ' ')) = normalise line := by
  have hsame : normalise (word ++ line.dropWhile (· ≠ ' ')) = normalise line := by
    rw [normalise_append, hword, ← normalise_append, List.takeWhile_append_dropWhile]
  refine ⟨⟨?_, ?_⟩, hsame⟩
  · rw [← mem_normalise (by decide), hsame, mem_normalise (by decide)]
    exact h.noTerminator
  · have hlen := congrArg List.length hsame
    rw [normalise, normalise, List.length_map, List.length_map] at hlen
    rw [hlen]
    exact h.fits

/-- The handler gets what was typed exactly when there is no capital among the arguments. -/
theorem delivered_iff (t : Tables H) (stream : S) (retval : ℤ) {line : List Char} (h : Accepted line) :
    Delivered t stream retval line ↔ (Known t line → ∀ c ∈ typedArgs line, c.isUpper = false) := by
  have hargs := lookup_args t h
  constructor
  · intro hdelivered hknown
    obtain ⟨entry, hentry⟩ := Option.isSome_iff_exists.mp hknown
    have hlookup : lookup t line = (some entry, (lookup t line).2) := Prod.ext hentry rfl
    rw [← normalise_eq_self_iff, ← hargs]
    exact hdelivered.verbatim entry _ (h.executed.mpr hlookup)
  · intro hlower
    refine ⟨?_, ?_⟩
    · intro entry args hrun
      have hlookup := h.executed.mp hrun
      have hknown : Known t line := by simp [Known, hlookup]
      rw [hlookup] at hargs
      exact hargs.trans (normalise_eq_self_iff.mpr (hlower hknown))
    · intro entry args word hword hrun
      obtain ⟨haccepted, hsame⟩ := h.respell hword
      rw [haccepted.executed, lookup_congr t hsame]
      exact h.executed.mp hrun

theorem path_delivered : Delivered listBuild.tables () 0 "LS /sd".toList :=
  (delivered_iff listBuild.tables () 0 ⟨by decide, by decide⟩).mpr fun _ =>
    List.all_iff_forall_prop.mp (by decide)

/-- The name of a file reaches its handler in lower case. -/
theorem capital_argument_changed :
    ¬ ∀ (lower : List Char → List Char) (build : Build lower) (line : List Char), Accepted line →
      Delivered build.tables () 0 line := by
  intro h
  have hdelivered := h _ listBuild "ls README".toList ⟨by decide, by decide⟩
  have hargs := hdelivered.verbatim ⟨cBytes ['l', 's'], some (.value "shell_ls".toList)⟩
    "readme".toList rfl
  exact absurd hargs (by decide)

end Arguments

end EtherBench.Parser.ShellLines
