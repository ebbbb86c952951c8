import Mathlib.Data.List.Nodup
import EtherBench.Parser.Command

/-! # The command tables that the build generates

`tasks/parser/scripts/generate_gperf.py` walks the tree of `commands.toml` and fills one
dictionary for the SCPI table and one for the shell table. Python strings are lists of
characters; `lower` stands for `str.lower`, of which nothing is assumed.
-/

namespace EtherBench.Parser.Generator
open Command

variable {V : Type*}

structure Dict (V : Type*) where
  items : List (List Char × V)
  nodupKeys : (items.map Prod.fst).Nodup

namespace Dict

def keys (d : Dict V) : List (List Char) := d.items.map Prod.fst

def empty : Dict V := ⟨[], List.nodup_nil⟩

/-- The items after `d[key] = value`: a key that is there keeps its place. -/
def setItems (items : List (List Char × V)) (key : List Char) (value : V) : List (List Char × V) :=
  if key ∈ items.map Prod.fst then items.map fun e => if e.1 = key then (key, value) else e
  else items ++ [(key, value)]

theorem setItems_keys (items : List (List Char × V)) (key : List Char) (value : V) :
    (setItems items key value).map Prod.fst =
      if key ∈ items.map Prod.fst then items.map Prod.fst else items.map Prod.fst ++ [key] := by
  unfold setItems
  split
  · rw [List.map_map]
    apply List.map_congr_left
    intro e _
    by_cases h : e.1 = key
    · simp [h]
    · simp [h]
  · simp

def set (d : Dict V) (key : List Char) (value : V) : Dict V where
  items := setItems d.items key value
  nodupKeys := by
    rw [setItems_keys]
    split
    · exact d.nodupKeys
    · next h => exact List.nodup_append.mpr ⟨d.nodupKeys, List.pairwise_singleton _ key, by grind⟩

end Dict

mutual
/-- A TOML value. Everything but a table is kept as the text the script writes for it, an array too, although
an array under `shell` is no key of a `dict` and stops the script. -/
inductive Toml where
  | value (text : List Char)
  | table (items : Items)
inductive Items where
  | nil
  | cons (key : List Char) (value : Toml) (rest : Items)
end

def Items.get (name : List Char) : Items → Option Toml
  | .nil => none
  | .cons key value rest => if key = name then some value else rest.get name

def handlerScpiQuery : List Char := "handler_scpi_query".toList
def handlerScpiSet : List Char := "handler_scpi_set".toList
def shellKey : List Char := "shell".toList
def handlerShell : List Char := "handler_shell".toList

/-- Keys are compared as texts. -/
scoped instance lawfulBEqKey : LawfulBEq (List Char) := inferInstance

def reservedKeys : List (List Char) := [handlerScpiQuery, handlerScpiSet, shellKey, handlerShell]

structure Entries where
  scpi : Dict Toml
  shell : Dict Toml

variable (lower : List Char → List Char)

/-- The spellings of one node of a path. `list(set(..))` only drops a repeated form. -/
def getScpiForms (word : List Char) : List (List Char) :=
  let word := lower word
  if word.head? = some '*' then [word]
  else
    let shortForm :=
      if word.length ≤ 4 then word
      else if word[3]?.any (· ∈ "aeiou".toList) then word.take 3
      else word.take 4
    if shortForm = word then [word] else [shortForm, word]

def product {α : Type*} : List (List α) → List (List α)
  | [] => [[]]
  | forms :: rest => forms.flatMap fun form => (product rest).map (form :: ·)

def generateScpiPermutations (pathList : List (List Char)) (isQuery : Bool) : List (List Char) :=
  (product (pathList.map (getScpiForms lower))).map fun c =>
    [':'].intercalate c ++ if isQuery then ['?'] else []

/-- Every spelling of the path gets the handler, when the node has one under `name`. -/
def addForms (node : Items) (name : List Char) (isQuery : Bool) (path : List (List Char))
    (scpi : Dict Toml) : Dict Toml :=
  match node.get name with
  | none => scpi
  | some handler =>
    (generateScpiPermutations lower path isQuery).foldl (fun d p => d.set p handler) scpi

/-- The entries of the node itself. A table cannot be a key of a `dict`, so a node whose
`shell` is a table stops the script. -/
def addNode (node : Items) (path : List (List Char)) (entries : Entries) : Option Entries :=
  let scpi := addForms lower node handlerScpiSet false path
    (addForms lower node handlerScpiQuery true path entries.scpi)
  match node.get shellKey, node.get handlerShell with
  | some (.value name), some handler => some ⟨scpi, entries.shell.set name handler⟩
  | some (.table _), some _ => none
  | _, _ => some ⟨scpi, entries.shell⟩

mutual
def extractCommands : Toml → List (List Char) → Entries → Option Entries
  | .value _, _, entries => some entries
  | .table items, path, entries => (addNode lower items path entries).bind (extractItems items path)
/-- The loop over `node.items()`. -/
def extractItems : Items → List (List Char) → Entries → Option Entries
  | .nil, _, entries => some entries
  | .cons key value rest, path, entries =>
    if key ∈ reservedKeys then extractItems rest path entries
    else (extractCommands value (path ++ [key]) entries).bind (extractItems rest path)
end

def mainLoop : Items → Entries → Option Entries
  | .nil, entries => some entries
  | .cons key value rest, entries => (extractCommands lower value [key] entries).bind (mainLoop rest)

def main (data : Items) : Option Entries := mainLoop lower data ⟨Dict.empty, Dict.empty⟩

/-- The bytes of a string in the generated file, each as one C character. -/
def cBytes (s : List Char) : List Char :=
  (s.flatMap String.utf8EncodeChar).map fun b => Char.ofNat b.toNat

theorem charOfByte_injective : Function.Injective fun b : UInt8 => Char.ofNat b.toNat := by
  have hback : ∀ b : UInt8, (Char.ofNat b.toNat).toNat = b.toNat := by
    intro b
    have hvalid : b.toNat.isValidChar := Or.inl (by have := b.toNat_lt; omega)
    rw [Char.ofNat, dif_pos hvalid]
    rfl
  intro a b h
  apply UInt8.toNat_inj.mp
  rw [← hback a, ← hback b]
  exact congrArg Char.toNat h

theorem cBytes_injective : Function.Injective cBytes := by
  intro s t h
  have hbytes : s.utf8Encode = t.utf8Encode :=
    congrArg List.toByteArray (List.map_injective_iff.mpr charOfByte_injective h)
  have hdecode : s.utf8Encode.utf8Decode? = t.utf8Encode.utf8Decode? := by rw [hbytes]
  rw [List.utf8Decode?_utf8Encode, List.utf8Decode?_utf8Encode, Option.some.injEq] at hdecode
  exact congrArg Array.toList hdecode

/-- The lookup gperf generates: the entry whose name is the head. -/
def gperfFind (d : Dict Toml) (head : List Char) : Option (CommandEntry Toml) :=
  (d.items.find? fun e => cBytes e.1 = head).map fun e => ⟨cBytes e.1, some e.2⟩

theorem gperfFind_name {d : Dict Toml} {head : List Char} {entry : CommandEntry Toml}
    (h : gperfFind d head = some entry) : entry.name = head := by
  obtain ⟨e, he, rfl⟩ := Option.map_eq_some_iff.mp h
  simpa using List.find?_some he

theorem gperfFind_of_mem {d : Dict Toml} {key : List Char} {value : Toml}
    (h : (key, value) ∈ d.items) : gperfFind d (cBytes key) = some ⟨cBytes key, some value⟩ := by
  cases hfind : d.items.find? fun e => cBytes e.1 = cBytes key with
  | none =>
    rw [List.find?_eq_none] at hfind
    exact absurd (decide_eq_true rfl) (hfind (key, value) h)
  | some e =>
    have hname : e.1 = key := cBytes_injective (by simpa using List.find?_some hfind)
    have hsame : e = (key, value) :=
      List.inj_on_of_nodup_map d.nodupKeys (List.mem_of_find?_eq_some hfind) h hname
    rw [gperfFind, hfind, hsame]
    rfl

/-- One build of the firmware: the command tree and the tables the script made from it. -/
structure Build where
  tree : Items
  entries : Entries
  generated : main lower tree = some entries

/-- The lookups that the firmware of a build calls. -/
def Build.tables {lower : List Char → List Char} (b : Build lower) : Tables Toml :=
  ⟨gperfFind b.entries.shell, gperfFind b.entries.scpi⟩

end EtherBench.Parser.Generator
