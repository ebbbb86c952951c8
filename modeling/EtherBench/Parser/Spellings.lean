import Mathlib.Data.List.Forall2
import EtherBench.Parser.Generator

/-! # Spellings that two commands share

The script stores the handler of a command under each of its spellings, and a key that is
stored twice keeps the last handler. Here: which trees lose no spelling that way.
-/

namespace EtherBench.Parser.Generator

variable {V : Type*}

theorem Dict.mem_set {d : Dict V} {key k : List Char} {value v : V} :
    (k, v) ∈ (d.set key value).items ↔ (k = key ∧ v = value) ∨ (k ≠ key ∧ (k, v) ∈ d.items) := by
  change (k, v) ∈ setItems d.items key value ↔ _
  unfold setItems
  split
  · next hkey =>
    obtain ⟨⟨key', v'⟩, hold, rfl⟩ := List.mem_map.mp hkey
    rw [List.mem_map]
    constructor
    · rintro ⟨⟨k', w⟩, hmem, heq⟩
      by_cases hk : k' = key'
      · rw [if_pos hk] at heq
        exact Or.inl ⟨(congrArg Prod.fst heq).symm, (congrArg Prod.snd heq).symm⟩
      · rw [if_neg hk] at heq
        cases heq
        exact Or.inr ⟨hk, hmem⟩
    · rintro (⟨rfl, rfl⟩ | ⟨hk, hmem⟩)
      · exact ⟨_, hold, if_pos rfl⟩
      · exact ⟨_, hmem, if_neg hk⟩
  · next hkey =>
    rw [List.mem_append, List.mem_singleton, Prod.mk.injEq, or_comm]
    apply or_congr_right
    rw [iff_and_self]
    rintro hmem rfl
    exact hkey (List.mem_map_of_mem hmem)

theorem Dict.value_unique {d : Dict V} {key : List Char} {v w : V} (hv : (key, v) ∈ d.items)
    (hw : (key, w) ∈ d.items) : v = w := by
  have hsame : (key, v) = (key, w) := List.inj_on_of_nodup_map d.nodupKeys hv hw rfl
  exact congrArg Prod.snd hsame

/-- `for key, value in pairs: d[key] = value`. -/
def Dict.setAll (d : Dict V) (pairs : List (List Char × V)) : Dict V :=
  pairs.foldl (fun d e => d.set e.1 e.2) d

theorem Dict.setAll_append (d : Dict V) (pairs pairs' : List (List Char × V)) :
    d.setAll (pairs ++ pairs') = (d.setAll pairs).setAll pairs' := List.foldl_append

/-- Pairs with one key have one value. -/
def Agree (pairs : List (List Char × V)) : Prop :=
  ∀ e ∈ pairs, ∀ f ∈ pairs, e.1 = f.1 → e.2 = f.2

theorem Dict.mem_setAll_of_mem {d : Dict V} {pairs : List (List Char × V)} {k : List Char} {v : V}
    (hmem : (k, v) ∈ d.items) (hagree : ∀ e ∈ pairs, e.1 = k → e.2 = v) :
    (k, v) ∈ (d.setAll pairs).items := by
  induction pairs generalizing d with
  | nil => exact hmem
  | cons e pairs ih =>
    apply ih
    · rw [mem_set]
      by_cases hk : k = e.1
      · exact Or.inl ⟨hk, (hagree e List.mem_cons_self hk.symm).symm⟩
      · exact Or.inr ⟨hk, hmem⟩
    · exact fun f hf => hagree f (List.mem_cons_of_mem e hf)

theorem Dict.setAll_keeps_iff (d : Dict V) (pairs : List (List Char × V)) :
    (∀ e ∈ pairs, e ∈ (d.setAll pairs).items) ↔ Agree pairs := by
  constructor
  · rintro hkept ⟨k, v⟩ he ⟨k', v'⟩ hf rfl
    exact value_unique (hkept _ he) (hkept _ hf)
  · intro hagree
    induction pairs generalizing d with
    | nil => simp
    | cons e pairs ih =>
      have hrest : Agree pairs :=
        fun f hf g hg => hagree f (List.mem_cons_of_mem e hf) g (List.mem_cons_of_mem e hg)
      rw [List.forall_mem_cons]
      refine ⟨?_, ih (d.set e.1 e.2) hrest⟩
      apply mem_setAll_of_mem (mem_set.mpr (Or.inl ⟨rfl, rfl⟩))
      exact fun f hf hk => hagree f (List.mem_cons_of_mem e hf) e List.mem_cons_self hk

theorem gperfFind_iff {d : Dict Toml} {key : List Char} {value : Toml} :
    gperfFind d (cBytes key) = some ⟨cBytes key, some value⟩ ↔ (key, value) ∈ d.items := by
  constructor
  · intro h
    obtain ⟨⟨key', value'⟩, hfind, hentry⟩ := Option.map_eq_some_iff.mp h
    obtain ⟨hname, hvalue⟩ := Command.CommandEntry.mk.inj hentry
    rw [← cBytes_injective hname, ← Option.some.inj hvalue]
    exact List.mem_of_find?_eq_some hfind
  · exact gperfFind_of_mem

end EtherBench.Parser.Generator

namespace EtherBench.Parser.Spellings
open Command Generator

/-- A command of the tree: a handler in its set or its query form, and the words that lead to it. -/
structure Declaration where
  path : List (List Char)
  isQuery : Bool
  handler : Toml

def nodeDeclarations (node : Items) (path : List (List Char)) : List Declaration :=
  ((node.get handlerScpiQuery).map fun handler => ⟨path, true, handler⟩).toList ++
    ((node.get handlerScpiSet).map fun handler => ⟨path, false, handler⟩).toList

mutual
/-- The SCPI commands below a node, in the order in which the script meets them. -/
def declarations : Toml → List (List Char) → List Declaration
  | .value _, _ => []
  | .table items, path => nodeDeclarations items path ++ itemDeclarations items path
def itemDeclarations : Items → List (List Char) → List Declaration
  | .nil, _ => []
  | .cons key value rest, path =>
    (if key ∈ reservedKeys then [] else declarations value (path ++ [key])) ++ itemDeclarations rest path
end

def treeDeclarations : Items → List Declaration
  | .nil => []
  | .cons key value rest => declarations value [key] ++ treeDeclarations rest

/-- A node whose shell name is a table, which no Python dictionary takes as a key. -/
def nodeStops (node : Items) : Bool :=
  match node.get shellKey, node.get handlerShell with
  | some (.table _), some _ => true
  | _, _ => false

mutual
/-- The script stops with an error at the node or below it. -/
def stops : Toml → Bool
  | .value _ => false
  | .table items => nodeStops items || itemsStop items
def itemsStop : Items → Bool
  | .nil => false
  | .cons key value rest => (if key ∈ reservedKeys then false else stops value) || itemsStop rest
end

def treeStops : Items → Bool
  | .nil => false
  | .cons _ value rest => stops value || treeStops rest

variable (lower : List Char → List Char)

def Declaration.spellings (d : Declaration) : List (List Char) :=
  generateScpiPermutations lower d.path d.isQuery

/-- What the script stores for a list of commands. -/
def spelled (ds : List Declaration) : List (List Char × Toml) :=
  ds.flatMap fun d => (d.spellings lower).map fun spelling => (spelling, d.handler)

theorem mem_spelled {ds : List Declaration} {e : List Char × Toml} :
    e ∈ spelled lower ds ↔ ∃ d ∈ ds, e.1 ∈ d.spellings lower ∧ e.2 = d.handler := by
  rw [spelled, List.mem_flatMap]
  apply exists_congr
  intro d
  apply and_congr_right
  intro _
  rw [List.mem_map]
  constructor
  · rintro ⟨spelling, hmem, rfl⟩
    exact ⟨hmem, rfl⟩
  · rintro ⟨hmem, hhandler⟩
    exact ⟨e.1, hmem, Prod.ext rfl hhandler.symm⟩

theorem spelled_append (ds ds' : List Declaration) :
    spelled lower (ds ++ ds') = spelled lower ds ++ spelled lower ds' := List.flatMap_append

theorem addForms_eq (node : Items) (name : List Char) (isQuery : Bool) (path : List (List Char))
    (scpi : Dict Toml) :
    addForms lower node name isQuery path scpi = scpi.setAll (spelled lower
      ((node.get name).map fun handler => (⟨path, isQuery, handler⟩ : Declaration)).toList) := by
  unfold addForms
  cases node.get name with
  | none => rfl
  | some handler =>
    rw [Option.map_some, Option.toList_some, spelled, List.flatMap_singleton, Dict.setAll, List.foldl_map]
    rfl

/-- What a part of the script leaves in the SCPI table, unless it stops. -/
structure Fills (ds : List Declaration) (stop : Bool) (entries : Entries) (result : Option Entries) :
    Prop where
  stopped : result = none ↔ stop = true
  filled : ∀ entries', result = some entries' → entries'.scpi = entries.scpi.setAll (spelled lower ds)

variable {lower}

theorem Fills.done (entries : Entries) : Fills lower [] false entries (some entries) where
  stopped := by simp
  filled entries' h := by
    cases h
    rfl

theorem Fills.bind {ds ds' : List Declaration} {stop stop' : Bool} {entries : Entries}
    {result : Option Entries} {f : Entries → Option Entries} (h : Fills lower ds stop entries result)
    (h' : ∀ e, Fills lower ds' stop' e (f e)) :
    Fills lower (ds ++ ds') (stop || stop') entries (result.bind f) := by
  cases hresult : result with
  | none => exact ⟨by simp [h.stopped.mp hresult], fun _ he => by simp at he⟩
  | some e =>
    have hstop : stop = false := by
      rw [← Bool.not_eq_true, ← h.stopped, hresult]
      simp
    refine ⟨by rw [Option.bind_some, hstop, Bool.false_or, (h' e).stopped], fun entries' he => ?_⟩
    rw [(h' e).filled entries' he, h.filled e hresult, spelled_append, Dict.setAll_append]

theorem addNode_fills (node : Items) (path : List (List Char)) (entries : Entries) :
    Fills lower (nodeDeclarations node path) (nodeStops node) entries (addNode lower node path entries) := by
  have hscpi : addForms lower node handlerScpiSet false path
      (addForms lower node handlerScpiQuery true path entries.scpi) =
      entries.scpi.setAll (spelled lower (nodeDeclarations node path)) := by
    rw [nodeDeclarations, spelled_append, Dict.setAll_append, addForms_eq, addForms_eq]
  unfold addNode nodeStops
  rw [hscpi]
  constructor
  · split <;> simp_all
  · intro entries' h
    simp only at h
    split at h <;> cases h <;> rfl

mutual
theorem extractCommands_fills : (t : Toml) → (path : List (List Char)) → (entries : Entries) →
    Fills lower (declarations t path) (stops t) entries (extractCommands lower t path entries)
  | .value _, _, entries => Fills.done entries
  | .table items, path, entries =>
    (addNode_fills items path entries).bind fun e => extractItems_fills items path e
theorem extractItems_fills : (items : Items) → (path : List (List Char)) → (entries : Entries) →
    Fills lower (itemDeclarations items path) (itemsStop items) entries
      (extractItems lower items path entries)
  | .nil, _, entries => Fills.done entries
  | .cons key value rest, path, entries => by
    rw [itemDeclarations, itemsStop, extractItems]
    by_cases hkey : key ∈ reservedKeys
    · rw [if_pos hkey, if_pos hkey, if_pos hkey, List.nil_append, Bool.false_or]
      exact extractItems_fills rest path entries
    · rw [if_neg hkey, if_neg hkey, if_neg hkey]
      exact (extractCommands_fills value (path ++ [key]) entries).bind fun e =>
        extractItems_fills rest path e
end

theorem mainLoop_fills (tree : Items) (entries : Entries) :
    Fills lower (treeDeclarations tree) (treeStops tree) entries (mainLoop lower tree entries) := by
  match tree with
  | .nil => exact Fills.done entries
  | .cons key value rest =>
    exact (extractCommands_fills value [key] entries).bind fun e => mainLoop_fills rest e

variable (lower)

def abbreviation (word : List Char) : List Char :=
  let word := lower word
  if word.head? = some '*' ∨ word.length ≤ 4 then word
  else if word[3]?.any (· ∈ "aeiou".toList) then word.take 3
  else word.take 4

theorem mem_getScpiForms {word form : List Char} :
    form ∈ getScpiForms lower word ↔ form = abbreviation lower word ∨ form = lower word := by
  unfold getScpiForms abbreviation
  simp only
  by_cases hstar : (lower word).head? = some '*'
  · simp [hstar]
  · simp only [hstar, if_false, false_or]
    split_ifs with h <;> simp_all

theorem mem_product {α : Type*} {choices : List (List α)} {c : List α} :
    c ∈ product choices ↔ List.Forall₂ (· ∈ ·) c choices := by
  induction choices generalizing c with
  | nil => simp [product]
  | cons forms rest ih =>
    rw [product, List.mem_flatMap, List.forall₂_cons_right_iff]
    simp only [List.mem_map, ih]
    constructor
    · rintro ⟨form, hform, c, hc, rfl⟩
      exact ⟨form, c, hform, hc, rfl⟩
    · rintro ⟨form, c, hform, hc, rfl⟩
      exact ⟨form, hform, c, hc, rfl⟩

/-- Two words that have a form in common. -/
def Alike (v w : List Char) : Prop :=
  abbreviation lower v = abbreviation lower w ∨ abbreviation lower v = lower w ∨
    lower v = abbreviation lower w ∨ lower v = lower w

theorem alike_iff {v w : List Char} :
    Alike lower v w ↔ ∃ form ∈ getScpiForms lower v, form ∈ getScpiForms lower w := by
  simp only [mem_getScpiForms, Alike]
  constructor
  · rintro (h | h | h | h)
    · exact ⟨_, Or.inl rfl, Or.inl h⟩
    · exact ⟨_, Or.inl rfl, Or.inr h⟩
    · exact ⟨_, Or.inr rfl, Or.inl h⟩
    · exact ⟨_, Or.inr rfl, Or.inr h⟩
  · rintro ⟨form, rfl | rfl, h | h⟩
    · exact Or.inl h
    · exact Or.inr (Or.inl h)
    · exact Or.inr (Or.inr (Or.inl h))
    · exact Or.inr (Or.inr (Or.inr h))

/-- A word with none of the two characters that the script writes itself. -/
def PlainWord (word : List Char) : Prop := ':' ∉ lower word ∧ '?' ∉ lower word

instance (word : List Char) : Decidable (PlainWord lower word) := instDecidableAnd

theorem abbreviation_isPrefix (word : List Char) : abbreviation lower word <+: lower word := by
  unfold abbreviation
  simp only
  split_ifs
  · exact List.prefix_rfl
  · exact List.take_prefix 3 _
  · exact List.take_prefix 4 _

theorem PlainWord.not_mem {word form : List Char} (h : PlainWord lower word)
    (hform : form ∈ getScpiForms lower word) : ':' ∉ form ∧ '?' ∉ form := by
  have hsub : form ⊆ lower word := by
    rcases (mem_getScpiForms lower).mp hform with rfl | rfl
    · exact (abbreviation_isPrefix lower word).subset
    · exact fun _ => id
  exact ⟨fun hc => h.1 (hsub hc), fun hc => h.2 (hsub hc)⟩

/-- The commands share a spelling: of paths of plain words when both are set or both are
query forms, the paths are equally long and their words are alike one by one. -/
def Clash (d d' : Declaration) : Prop :=
  if ∀ word ∈ d.path ++ d'.path, PlainWord lower word then
    d.isQuery = d'.isQuery ∧ List.Forall₂ (Alike lower) d.path d'.path
  else ∃ spelling ∈ d.spellings lower, spelling ∈ d'.spellings lower

def choices (path : List (List Char)) : List (List (List Char)) := product (path.map (getScpiForms lower))

variable {lower}

theorem mem_choices {path c : List (List Char)} :
    c ∈ choices lower path ↔ List.Forall₂ (fun form word => form ∈ getScpiForms lower word) c path := by
  rw [choices, mem_product, List.forall₂_map_right_iff]

theorem mem_spellings {d : Declaration} {spelling : List Char} :
    spelling ∈ d.spellings lower ↔
      ∃ c ∈ choices lower d.path, [':'].intercalate c ++ (if d.isQuery then ['?'] else []) = spelling := by
  rw [Declaration.spellings, generateScpiPermutations, List.mem_map, choices]

/-- Paths are alike word by word exactly when one choice of forms spells both. -/
theorem forall₂_alike_iff {path path' : List (List Char)} :
    List.Forall₂ (Alike lower) path path' ↔ ∃ c ∈ choices lower path, c ∈ choices lower path' := by
  simp only [mem_choices]
  constructor
  · intro h
    induction h with
    | nil => exact ⟨[], .nil, .nil⟩
    | cons halike _ ih =>
      obtain ⟨form, hform, hform'⟩ := (alike_iff lower).mp halike
      obtain ⟨c, hc, hc'⟩ := ih
      exact ⟨form :: c, .cons hform hc, .cons hform' hc'⟩
  · rintro ⟨c, hc, hc'⟩
    induction hc generalizing path' with
    | nil =>
      cases hc'
      exact .nil
    | cons hform _ ih =>
      cases hc' with
      | cons hform' hrest => exact .cons ((alike_iff lower).mpr ⟨_, hform, hform'⟩) (ih hrest)

theorem choices_plain {path c : List (List Char)} (hplain : ∀ word ∈ path, PlainWord lower word)
    (hc : c ∈ choices lower path) : ∀ form ∈ c, ':' ∉ form ∧ '?' ∉ form := by
  have hforms := mem_choices.mp hc
  clear hc
  induction hforms with
  | nil => simp
  | cons hform _ ih =>
    rw [List.forall_mem_cons] at hplain ⊢
    exact ⟨hplain.1.not_mem lower hform, ih hplain.2⟩

theorem choices_ne_nil {path c : List (List Char)} (hpath : path ≠ []) (hc : c ∈ choices lower path) :
    c ≠ [] := by
  rintro rfl
  exact hpath (List.forall₂_nil_left_iff.mp (mem_choices.mp hc))

theorem intercalate_question {c : List (List Char)} (h : ∀ form ∈ c, ':' ∉ form ∧ '?' ∉ form) :
    '?' ∉ [':'].intercalate c := by
  induction c with
  | nil => simp
  | cons form rest ih =>
    rw [List.forall_mem_cons] at h
    cases rest with
    | nil => simpa using h.1.2
    | cons form' rest => simpa [List.intercalate_cons_cons, h.1.2] using ih h.2

theorem spelling_unique {c c' : List (List Char)} {q q' : Bool}
    (h : ∀ form ∈ c, ':' ∉ form ∧ '?' ∉ form) (h' : ∀ form ∈ c', ':' ∉ form ∧ '?' ∉ form)
    (hc : c ≠ []) (hc' : c' ≠ [])
    (heq : [':'].intercalate c ++ (if q then ['?'] else []) =
      [':'].intercalate c' ++ (if q' then ['?'] else [])) : q = q' ∧ c = c' := by
  have hmark := intercalate_question h
  have hmark' := intercalate_question h'
  have hq : q = q' := by
    have hmem : ('?' ∈ [':'].intercalate c ++ if q then ['?'] else []) ↔ q = true := by
      cases q <;> simp [hmark]
    have hmem' : ('?' ∈ [':'].intercalate c' ++ if q' then ['?'] else []) ↔ q' = true := by
      cases q' <;> simp [hmark']
    rw [heq, hmem'] at hmem
    exact Bool.eq_iff_iff.mpr hmem.symm
  subst hq
  have hjoined := List.append_cancel_right heq
  have hsplit := List.splitOn_intercalate ':' (fun form hform => (h form hform).1) hc
  rw [hjoined, List.splitOn_intercalate ':' (fun form hform => (h' form hform).1) hc'] at hsplit
  exact ⟨rfl, hsplit.symm⟩

/-- `Clash` says when two commands have a spelling in common. -/
theorem clash_iff {d d' : Declaration} (hpath : d.path ≠ []) (hpath' : d'.path ≠ []) :
    Clash lower d d' ↔ ∃ spelling ∈ d.spellings lower, spelling ∈ d'.spellings lower := by
  unfold Clash
  split
  · next hplain =>
    rw [List.forall_mem_append] at hplain
    rw [forall₂_alike_iff]
    simp only [mem_spellings]
    constructor
    · rintro ⟨hkind, c, hc, hc'⟩
      exact ⟨_, ⟨c, hc, rfl⟩, c, hc', by rw [hkind]⟩
    · rintro ⟨_, ⟨c, hc, rfl⟩, c', hc', heq⟩
      obtain ⟨hkind, rfl⟩ := spelling_unique (choices_plain hplain.1 hc) (choices_plain hplain.2 hc')
        (choices_ne_nil hpath hc) (choices_ne_nil hpath' hc') heq.symm
      exact ⟨hkind, c, hc, hc'⟩
  · exact Iff.rfl

theorem nodeDeclarations_path {node : Items} {path : List (List Char)} {d : Declaration}
    (hd : d ∈ nodeDeclarations node path) : d.path = path := by
  rw [nodeDeclarations, List.mem_append, Option.mem_toList, Option.mem_toList, Option.map_eq_some_iff,
    Option.map_eq_some_iff] at hd
  rcases hd with ⟨handler, -, rfl⟩ | ⟨handler, -, rfl⟩ <;> rfl

mutual
theorem declarations_path : (t : Toml) → (path : List (List Char)) → path ≠ [] →
    ∀ d ∈ declarations t path, d.path ≠ []
  | .value _, _, _ => by simp [declarations]
  | .table items, path, hpath => by
    rw [declarations, List.forall_mem_append]
    refine ⟨fun d hd => ?_, itemDeclarations_path items path hpath⟩
    rw [nodeDeclarations_path hd]
    exact hpath
theorem itemDeclarations_path : (items : Items) → (path : List (List Char)) → path ≠ [] →
    ∀ d ∈ itemDeclarations items path, d.path ≠ []
  | .nil, _, _ => by simp [itemDeclarations]
  | .cons key value rest, path, hpath => by
    rw [itemDeclarations, List.forall_mem_append]
    refine ⟨?_, itemDeclarations_path rest path hpath⟩
    split
    · simp
    · exact declarations_path value (path ++ [key]) (by simp)
end

theorem treeDeclarations_path (tree : Items) : ∀ d ∈ treeDeclarations tree, d.path ≠ [] := by
  match tree with
  | .nil => simp [treeDeclarations]
  | .cons key value rest =>
    rw [treeDeclarations, List.forall_mem_append]
    exact ⟨declarations_path value [key] (by simp), treeDeclarations_path rest⟩

variable (lower)

/-- Each spelling of a command leads to its own handler in the generated table. -/
def Unambiguous (tree : Items) : Prop :=
  ∀ build : Build lower, build.tree = tree → ∀ d ∈ treeDeclarations tree,
    ∀ spelling ∈ d.spellings lower,
      build.tables.findScpiCommand (cBytes spelling) = some ⟨cBytes spelling, some d.handler⟩

variable {lower}

theorem spelled_agree_iff {ds : List Declaration} (hpath : ∀ d ∈ ds, d.path ≠ []) :
    Agree (spelled lower ds) ↔
      ∀ d ∈ ds, ∀ d' ∈ ds, d.handler ≠ d'.handler → ¬ Clash lower d d' := by
  constructor
  · intro hagree d hd d' hd' hhandler hclash
    obtain ⟨spelling, hmem, hmem'⟩ := (clash_iff (hpath d hd) (hpath d' hd')).mp hclash
    exact hhandler (hagree (spelling, d.handler) ((mem_spelled lower).mpr ⟨d, hd, hmem, rfl⟩)
      (spelling, d'.handler) ((mem_spelled lower).mpr ⟨d', hd', hmem', rfl⟩) rfl)
  · intro hclash e he f hf hkey
    obtain ⟨d, hd, hmem, hvalue⟩ := (mem_spelled lower).mp he
    obtain ⟨d', hd', hmem', hvalue'⟩ := (mem_spelled lower).mp hf
    rw [hvalue, hvalue']
    by_contra hhandler
    apply hclash d hd d' hd' hhandler
    exact (clash_iff (hpath d hd) (hpath d' hd')).mpr ⟨e.1, hmem, hkey ▸ hmem'⟩

variable (lower)

/-- A tree is spelled unambiguously exactly when the script stops at it or no two of its commands
with different handlers clash. -/
theorem unambiguous_iff (tree : Items) :
    Unambiguous lower tree ↔ treeStops tree = true ∨
      ∀ d ∈ treeDeclarations tree, ∀ d' ∈ treeDeclarations tree, d.handler ≠ d'.handler →
        ¬ Clash lower d d' := by
  have hfills : Fills lower _ _ _ (main lower tree) := mainLoop_fills tree ⟨Dict.empty, Dict.empty⟩
  rw [← spelled_agree_iff (treeDeclarations_path tree)]
  cases hmain : main lower tree with
  | none =>
    refine iff_of_true ?_ (Or.inl (hfills.stopped.mp hmain))
    rintro build rfl
    exact absurd (hmain.symm.trans build.generated) (by simp)
  | some entries =>
    have hgo : ¬ treeStops tree = true := by
      rw [← hfills.stopped, hmain]
      simp
    have hbuild (build : Build lower) (h : build.tree = tree) : build.entries = entries := by
      subst h
      exact Option.some.inj (build.generated.symm.trans hmain)
    rw [or_iff_right hgo, ← Dict.setAll_keeps_iff Dict.empty, ← hfills.filled entries hmain]
    constructor
    · intro h e he
      obtain ⟨d, hd, hmem, hvalue⟩ := (mem_spelled lower).mp he
      have hfound := gperfFind_iff.mp (h ⟨tree, entries, hmain⟩ rfl d hd e.1 hmem)
      rw [← hvalue] at hfound
      exact hfound
    · intro h build htree d hd spelling hmem
      have hkept := h (spelling, d.handler) ((mem_spelled lower).mpr ⟨d, hd, hmem, rfl⟩)
      rw [← hbuild build htree] at hkept
      exact gperfFind_iff.mpr hkept

def loggerTree : Items :=
  let shell (key : String) (rest : Items) : Items :=
    .cons key.toList (.value "logger".toList)
      (.cons "handler_shell_set".toList (.value "shell_log".toList) rest)
  let command (name handler : String) (key : String) (rest : Items) : Items :=
    .cons name.toList (.table (.cons handlerScpiSet (.value handler.toList) (shell key .nil))) rest
  .cons "logger".toList (.table
    (command "subscribe" "scpi_log_subscribe" "shell_"
      (command "unsubscribe" "scpi_log_unsubscribe" "shell_set"
        (command "unsubslistcribe" "scpi_log_list" "shell_set" .nil)))) .nil

/-- The script accepts the shipped tree, in which two commands have `logg:uns` as a short form. -/
theorem unsubscribe_shadowed :
    ¬ ∀ (lower : List Char → List Char) (tree : Items), Unambiguous lower tree := by
  intro h
  let lower : List Char → List Char := List.map Char.toLower
  have haccepted : main lower loggerTree ≠ none := by
    rw [Ne, main, (mainLoop_fills loggerTree _).stopped]
    decide
  obtain ⟨entries, hmain⟩ := Option.ne_none_iff_exists'.mp haccepted
  have hown := h lower loggerTree ⟨loggerTree, entries, hmain⟩ rfl
  have hunsubscribe := hown
    ⟨["logger".toList, "unsubscribe".toList], false, .value "scpi_log_unsubscribe".toList⟩
    (List.mem_cons_of_mem _ List.mem_cons_self) "logg:uns".toList (by decide)
  have hlist := hown
    ⟨["logger".toList, "unsubslistcribe".toList], false, .value "scpi_log_list".toList⟩
    (List.mem_cons_of_mem _ (List.mem_cons_of_mem _ List.mem_cons_self)) "logg:uns".toList (by decide)
  have hhandler := (CommandEntry.mk.inj (Option.some.inj (hunsubscribe.symm.trans hlist))).2
  exact absurd (Toml.value.inj (Option.some.inj hhandler)) (by decide)

end EtherBench.Parser.Spellings
