import Mathlib.Data.List.TakeWhile
import EtherBench.Parser.Generator

/-! # Which spellings of a SCPI command reach its handler

The parser classifies a whole line before it splits the head off, by looking for one of
three characters after the first place. The generated keys, their spellings and any
argument text go through that heuristic.
-/

namespace EtherBench.Parser.Dispatch
open Command Generator

variable {S : Type*}

/-- Lower-casing neither makes nor changes a character before the letters. -/
theorem toLower_eq_iff {c d : Char} (hd : d.val < 'A'.val) : c.toLower = d ↔ c = d := by
  unfold Char.toLower
  split
  · next hc =>
    have hne : c ≠ d := by
      rintro rfl
      exact absurd hc.1 (UInt32.not_le.mpr hd)
    apply iff_of_false _ hne
    rintro rfl
    simp only [UInt32.lt_iff_toNat_lt, UInt32.le_iff_toNat_le, ge_iff_le, UInt32.toNat_add] at hc hd
    simp at hc hd
    omega
  · rfl

theorem mem_normalise {s : List Char} {d : Char} (hd : d.val < 'A'.val) : d ∈ normalise s ↔ d ∈ s := by
  simp [normalise, toLower_eq_iff hd]

theorem normalise_head {s : List Char} {d : Char} (hd : d.val < 'A'.val) :
    (normalise s).head? = some d ↔ s.head? = some d := by
  cases s with
  | nil => rfl
  | cons c s => simp [normalise, toLower_eq_iff hd]

theorem normalise_append (s t : List Char) : normalise (s ++ t) = normalise s ++ normalise t :=
  List.map_append

theorem normalise_take (s : List Char) (n : ℕ) : normalise (s.take n) = (normalise s).take n :=
  List.map_take

theorem normalise_takeWhile {d : Char} (hd : d.val < 'A'.val) (s : List Char) :
    normalise (s.takeWhile (· ≠ d)) = (normalise s).takeWhile (· ≠ d) := by
  rw [normalise, normalise, List.takeWhile_map]
  congr 2
  funext c
  simp [toLower_eq_iff hd]

theorem strchr_cons (c : Char) (s : List Char) (d : Char) :
    strchr (c :: s) d = if c = d then some 0 else (strchr s d).map (· + 1) := by
  simp [strchr, List.findIdx?_cons]

theorem splitArgs_head (s : List Char) : (splitArgs s).1 = s.takeWhile (· ≠ ' ') := by
  induction s with
  | nil => rfl
  | cons c s ih =>
    unfold splitArgs at ih ⊢
    rw [strchr_cons]
    by_cases hc : c = ' '
    · simp [hc]
    · cases hfind : strchr s ' ' with
      | none =>
        rw [hfind] at ih
        simpa [hc] using ih
      | some i =>
        rw [hfind] at ih
        simpa [hc] using ih

theorem strchr_succ {s : List Char} {d : Char} :
    (∃ i, strchr s d = some (i + 1)) ↔ d ∈ s ∧ s.head? ≠ some d := by
  cases s with
  | nil => simp [strchr]
  | cons c s =>
    rw [strchr_cons]
    by_cases hc : c = d
    · simp [hc]
    · have hmem : (∃ i, strchr s d = some i) ↔ d ∈ s := by
        simp [← Option.isSome_iff_exists, strchr]
      simp [hc, Ne.symm hc, ← hmem]

/-- Some token occurs in the command, and is not its first character. -/
def MarkedScpi (command : List Char) : Prop :=
  ∃ token ∈ tokens, token ∈ command ∧ command.head? ≠ some token

theorem isShellLoop_eq_false {command marks : List Char} :
    isShellLoop command marks = false ↔
      ∃ token ∈ marks, token ∈ command ∧ command.head? ≠ some token := by
  induction marks with
  | nil => simp [isShellLoop]
  | cons token rest ih =>
    rw [List.exists_mem_cons_iff, ← strchr_succ, ← ih, isShellLoop]
    split
    · next i h => simp [h]
    · next h =>
      constructor
      · exact Or.inr
      · rintro (⟨i, hi⟩ | hrest)
        · exact absurd hi (h i)
        · exact hrest

theorem isShell_normalise {command : List Char} :
    isShell (normalise command) = false ↔ MarkedScpi command := by
  rw [isShell, isShellLoop_eq_false]
  have hplain : ∀ token ∈ tokens, token.val < 'A'.val := by simp [tokens]
  constructor
  · rintro ⟨token, htoken, hmem, hhead⟩
    have hp := hplain token htoken
    exact ⟨token, htoken, (mem_normalise hp).mp hmem, mt (normalise_head hp).mpr hhead⟩
  · rintro ⟨token, htoken, hmem, hhead⟩
    have hp := hplain token htoken
    exact ⟨token, htoken, (mem_normalise hp).mpr hmem, mt (normalise_head hp).mp hhead⟩

/-- The argument part of a line: nothing, or a blank and any text. -/
def argText : Option (List Char) → List Char
  | none => []
  | some text => ' ' :: text

/-- A key that a command line can carry whole. -/
def FitsLine (key : List Char) : Prop := ' ' ∉ key ∧ '\x00' ∉ key ∧ key.length < shellLineLength

theorem takeWhile_argText (n : ℕ) (args : Option (List Char)) :
    (((normalise (argText args)).takeWhile (· ≠ '\x00')).take n).takeWhile (· ≠ ' ') = [] := by
  cases args with
  | none => simp [argText, normalise]
  | some text =>
    cases n with
    | zero => rfl
    | succ n =>
      have hblank : ' '.toLower = ' ' := by decide
      simp [argText, normalise, hblank]

/-- The head the parser looks up is the spelled key exactly when the line can carry it. -/
theorem lookedUp_eq_iff {key head : List Char} (hhead : normalise head = key)
    (args : Option (List Char)) (stream : S) :
    (splitArgs (normalise (fillRequest stream (head ++ argText args)).command)).1 = key ↔ FitsLine key := by
  rw [splitArgs_head, fillRequest, normalise_take, cString, normalise_takeWhile (by decide),
    normalise_append, hhead]
  constructor
  · intro h
    refine ⟨?_, ?_, ?_⟩
    · rw [← h]
      intro hmem
      simpa using List.mem_takeWhile_imp hmem
    · rw [← h]
      intro hmem
      have hprefix := List.mem_of_mem_take ((List.takeWhile_prefix _).subset hmem)
      simpa using List.mem_takeWhile_imp hprefix
    · have hlen : key.length ≤ shellLineLength - 1 := by
        rw [← h]
        exact le_trans (List.takeWhile_prefix _).length_le (List.length_take_le _ _)
      unfold shellLineLength at *
      omega
  · rintro ⟨hblank, hnul, hlen⟩
    have hkeep : ∀ {d : Char}, d ∉ key → ∀ c ∈ key, decide (c ≠ d) = true := by
      intro d hd c hc
      rw [decide_eq_true_eq]
      rintro rfl
      exact hd hc
    have hcut : (key ++ (normalise (argText args)).takeWhile (· ≠ '\x00')).take (shellLineLength - 1) =
        key ++ ((normalise (argText args)).takeWhile (· ≠ '\x00')).take
          (shellLineLength - 1 - key.length) := by
      rw [List.take_append, List.take_of_length_le (by omega)]
    rw [List.takeWhile_append_of_pos (hkeep hnul), hcut, List.takeWhile_append_of_pos (hkeep hblank),
      takeWhile_argText, List.append_nil]

/-- The parser looks the head up in the SCPI table and calls the handler of `key`. -/
def Dispatched (t : Tables Toml) (key : List Char) (handler : Toml) (msg : ParserInput S)
    (retval : ℤ) : Prop :=
  isShell (normalise msg.command) = false ∧
    ∃ args, parserTask t (some msg) retval = .executed ⟨key, some handler⟩ args retval

theorem dispatched_iff_lookup {t : Tables Toml} {key : List Char} {handler : Toml} {stream : S}
    {command : List Char} {retval : ℤ} :
    Dispatched t key handler ⟨some stream, command⟩ retval ↔
      isShell (normalise command) = false ∧
        t.findScpiCommand (splitArgs (normalise command)).1 = some ⟨key, some handler⟩ := by
  unfold Dispatched
  apply and_congr_right
  intro hshell
  simp only [parserTask, lookup, hshell, Bool.false_eq_true, if_false]
  cases t.findScpiCommand (splitArgs (normalise command)).1 with
  | none => simp
  | some entry => simp

variable {lower : List Char → List Char}

/-- A generated SCPI key, in any case and with any arguments, is dispatched exactly when a line
can carry it and the stored line is marked by a token after its first character. -/
theorem dispatched_iff (build : Build lower) {key : List Char} {handler : Toml}
    (hkey : (key, handler) ∈ build.entries.scpi.items) {head : List Char}
    (hhead : normalise head = cBytes key) (args : Option (List Char)) (stream : S) (retval : ℤ) :
    Dispatched build.tables (cBytes key) handler (fillRequest stream (head ++ argText args)) retval ↔
      FitsLine (cBytes key) ∧ MarkedScpi (fillRequest stream (head ++ argText args)).command := by
  have hfound := lookedUp_eq_iff hhead args stream
  rw [fillRequest] at *
  rw [dispatched_iff_lookup, isShell_normalise, ← hfound, and_comm]
  apply and_congr_left
  intro _
  constructor
  · exact fun h => (gperfFind_name h).symm
  · intro h
    rw [h]
    exact gperfFind_of_mem hkey

def resetBuild : Build (List.map Char.toLower) where
  tree := .cons ['*', 'r', 's', 't'] (.table (.cons handlerScpiSet (.value "scpi_rst".toList) .nil)) .nil
  entries := ⟨⟨[(['*', 'r', 's', 't'], .value "scpi_rst".toList)], by simp⟩, Dict.empty⟩
  generated := rfl

/-- With a colon in its argument the reset is dispatched. -/
theorem reset_colon_dispatched :
    Dispatched resetBuild.tables (cBytes ['*', 'r', 's', 't']) (.value "scpi_rst".toList)
      (fillRequest () (['*', 'R', 'S', 'T'] ++ argText (some [':']))) 0 :=
  (dispatched_iff resetBuild List.mem_cons_self rfl (some [':']) () 0).mpr
    ⟨⟨by decide, by decide, by decide⟩, ':', by decide, by decide, by decide⟩

/-- Without arguments the leading star is the only token, and the line goes to the shell table. -/
theorem reset_not_dispatched :
    ¬ ∀ (lower : List Char → List Char) (build : Build lower) (key : List Char) (handler : Toml),
      (key, handler) ∈ build.entries.scpi.items → key ∉ build.entries.shell.keys →
      ∀ head : List Char, normalise head = cBytes key →
      ∀ (args : Option (List Char)) (stream : Unit) (retval : ℤ),
        Dispatched build.tables (cBytes key) handler (fillRequest stream (head ++ argText args)) retval := by
  intro h
  have hreset := h _ resetBuild _ _ List.mem_cons_self List.not_mem_nil ['*', 'R', 'S', 'T'] rfl none () 0
  exact absurd hreset.1 (by decide)

end EtherBench.Parser.Dispatch
