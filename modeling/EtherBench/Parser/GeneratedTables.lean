import Mathlib.Data.List.Induction
import EtherBench.Parser.Spellings

/-! # What the two generated tables hold

The script visits the tables of the command tree from the top, each before the tables in it,
and writes its dictionaries as it goes. Here: a dictionary written that way holds the last
value of each key, so the SCPI table is the set of spellings of the tree, and a handler
reaches the firmware only if the script recognises its key.
-/

namespace EtherBench.Parser.GeneratedTables
open Generator Spellings

section Last

variable {α V : Type*}

/-- The last element of a list that has the property. -/
def LastWith (P : α → Prop) (l : List α) (x : α) : Prop :=
  ∃ before after, l = before ++ x :: after ∧ P x ∧ ∀ y ∈ after, ¬ P y

theorem LastWith.holds {P : α → Prop} {l : List α} {x : α} (h : LastWith P l x) : x ∈ l ∧ P x := by
  obtain ⟨before, after, rfl, hx, -⟩ := h
  exact ⟨List.mem_append_right _ List.mem_cons_self, hx⟩

theorem not_lastWith_nil {P : α → Prop} {x : α} : ¬ LastWith P [] x := by
  rintro ⟨before, after, h, -⟩
  simp at h

theorem lastWith_concat {P : α → Prop} {l : List α} {a x : α} :
    LastWith P (l ++ [a]) x ↔ (P a ∧ x = a) ∨ (¬ P a ∧ LastWith P l x) := by
  constructor
  · rintro ⟨before, after, h, hx, hafter⟩
    rcases List.eq_nil_or_concat after with rfl | ⟨after, b, rfl⟩
    · have hxa : a = x := (List.append_inj' h rfl).2 |> List.singleton_inj.mp
      exact Or.inl ⟨hxa ▸ hx, hxa.symm⟩
    · rw [List.concat_eq_append, ← List.cons_append, ← List.append_assoc] at h
      obtain ⟨hl, hab⟩ := List.append_inj' h rfl
      rw [List.singleton_inj] at hab
      subst hab
      rw [List.concat_eq_append, List.forall_mem_append, List.forall_mem_singleton] at hafter
      exact Or.inr ⟨hafter.2, before, after, hl, hx, hafter.1⟩
  · rintro (⟨ha, rfl⟩ | ⟨ha, before, after, rfl, hx, hafter⟩)
    · exact ⟨l, [], rfl, ha, by simp⟩
    · refine ⟨before, after ++ [a], by simp, hx, ?_⟩
      rw [List.forall_mem_append, List.forall_mem_singleton]
      exact ⟨hafter, ha⟩

theorem exists_lastWith_iff {P : α → Prop} {l : List α} : (∃ x, LastWith P l x) ↔ ∃ x ∈ l, P x := by
  constructor
  · rintro ⟨x, hx⟩
    exact ⟨x, hx.holds⟩
  · induction l using List.reverseRecOn with
    | nil => simp
    | append_singleton l a ih =>
      rintro ⟨x, hmem, hx⟩
      by_cases ha : P a
      · exact ⟨a, lastWith_concat.mpr (Or.inl ⟨ha, rfl⟩)⟩
      · rcases List.mem_append.mp hmem with hmem | hmem
        · obtain ⟨y, hy⟩ := ih ⟨x, hmem, hx⟩
          exact ⟨y, lastWith_concat.mpr (Or.inr ⟨ha, hy⟩)⟩
        · rw [List.mem_singleton] at hmem
          exact absurd (hmem ▸ hx) ha

theorem mem_setAll_const {d : Dict V} {names : List (List Char)} {value : V} {k : List Char} {v : V} :
    (k, v) ∈ (d.setAll (names.map (·, value))).items ↔
      (k ∈ names ∧ v = value) ∨ (k ∉ names ∧ (k, v) ∈ d.items) := by
  induction names generalizing d with
  | nil => simp [Dict.setAll]
  | cons name names ih =>
    rw [List.map_cons, Dict.setAll, List.foldl_cons]
    change (k, v) ∈ ((d.set name value).setAll (names.map (·, value))).items ↔ _
    rw [ih, Dict.mem_set, List.mem_cons]
    tauto

/-- A dictionary to which each element of a list wrote its value under its names: every name
has the value of the last element with that name. -/
theorem mem_setAll_iff (names : α → List (List Char)) (value : α → V) (l : List α) {k : List Char}
    {v : V} : (k, v) ∈ (Dict.empty.setAll (l.flatMap fun a => (names a).map (·, value a))).items ↔
      ∃ a, LastWith (fun a => k ∈ names a) l a ∧ value a = v := by
  induction l using List.reverseRecOn with
  | nil => simp [Dict.setAll, Dict.empty, not_lastWith_nil]
  | append_singleton l a ih =>
    rw [List.flatMap_append, Dict.setAll_append, List.flatMap_singleton, mem_setAll_const, ih]
    simp only [lastWith_concat]
    constructor
    · rintro (⟨hk, rfl⟩ | ⟨hk, b, hb, hv⟩)
      · exact ⟨a, Or.inl ⟨hk, rfl⟩, rfl⟩
      · exact ⟨b, Or.inr ⟨hk, hb⟩, hv⟩
    · rintro ⟨b, ⟨hk, rfl⟩ | ⟨hk, hb⟩, hv⟩
      · exact Or.inl ⟨hk, hv.symm⟩
      · exact Or.inr ⟨hk, b, hb, hv⟩

end Last

structure Node where
  path : List (List Char)
  items : Items

mutual
/-- Every table at or below a value, each before the tables in it. -/
def nodes : Toml → List (List Char) → List Node
  | .value _, _ => []
  | .table items, path => ⟨path, items⟩ :: nodesIn items path
def nodesIn : Items → List (List Char) → List Node
  | .nil, _ => []
  | .cons key value rest, path => nodes value (path ++ [key]) ++ nodesIn rest path
end

mutual
/-- The tables that `extract_commands` visits: it does not look below the reserved keys. -/
def visited : Toml → List (List Char) → List Node
  | .value _, _ => []
  | .table items, path => ⟨path, items⟩ :: visitedIn items path
def visitedIn : Items → List (List Char) → List Node
  | .nil, _ => []
  | .cons key value rest, path =>
    (if key ∈ reservedKeys then [] else visited value (path ++ [key])) ++ visitedIn rest path
end

def visitedByMain : Items → List Node
  | .nil => []
  | .cons key value rest => visited value [key] ++ visitedByMain rest

def Node.declarations (n : Node) : List Declaration := nodeDeclarations n.items n.path

mutual
theorem declarations_eq : (t : Toml) → (path : List (List Char)) →
    declarations t path = (visited t path).flatMap Node.declarations
  | .value _, _ => rfl
  | .table items, path => by
    rw [declarations, visited, List.flatMap_cons, itemDeclarations_eq items path]
    rfl
theorem itemDeclarations_eq : (items : Items) → (path : List (List Char)) →
    itemDeclarations items path = (visitedIn items path).flatMap Node.declarations
  | .nil, _ => rfl
  | .cons key value rest, path => by
    rw [itemDeclarations, visitedIn, List.flatMap_append, itemDeclarations_eq rest path]
    split
    · rfl
    · rw [declarations_eq value (path ++ [key])]
end

theorem treeDeclarations_eq (tree : Items) :
    treeDeclarations tree = (visitedByMain tree).flatMap Node.declarations := by
  match tree with
  | .nil => rfl
  | .cons key value rest =>
    rw [treeDeclarations, visitedByMain, List.flatMap_append, treeDeclarations_eq rest,
      declarations_eq value [key]]

mutual
/-- The reserved keys of every table hold strings. -/
def ReservedText : Toml → Prop
  | .value _ => True
  | .table items => ItemsReservedText items
def ItemsReservedText : Items → Prop
  | .nil => True
  | .cons key value rest =>
    (key ∈ reservedKeys → ∃ text, value = .value text) ∧ ReservedText value ∧ ItemsReservedText rest
end

mutual
theorem visited_eq : (t : Toml) → (path : List (List Char)) → ReservedText t →
    visited t path = nodes t path
  | .value _, _, _ => rfl
  | .table items, path, h => by
    rw [visited, nodes, visitedIn_eq items path h]
theorem visitedIn_eq : (items : Items) → (path : List (List Char)) → ItemsReservedText items →
    visitedIn items path = nodesIn items path
  | .nil, _, _ => rfl
  | .cons key value rest, path, ⟨htext, hvalue, hrest⟩ => by
    rw [visitedIn, nodesIn, visitedIn_eq rest path hrest]
    split
    · next hkey =>
      obtain ⟨text, rfl⟩ := htext hkey
      rfl
    · rw [visited_eq value (path ++ [key]) hvalue]
end

theorem visitedByMain_eq (tree : Items) (h : ItemsReservedText tree) :
    visitedByMain tree = nodesIn tree [] := by
  match tree, h with
  | .nil, _ => rfl
  | .cons key value rest, ⟨_, hvalue, hrest⟩ =>
    rw [visitedByMain, nodesIn, visitedByMain_eq rest hrest, visited_eq value [key] hvalue]
    rfl

theorem get_text {items : Items} (h : ItemsReservedText items) {name : List Char}
    (hname : name ∈ reservedKeys) {value : Toml} (hvalue : items.get name = some value) :
    ∃ text, value = .value text := by
  match items, h with
  | .nil, _ => simp [Items.get] at hvalue
  | .cons key value' rest, ⟨htext, _, hrest⟩ =>
    rw [Items.get] at hvalue
    split at hvalue
    · next hkey =>
      rw [Option.some.injEq] at hvalue
      exact hvalue ▸ htext (hkey ▸ hname)
    · exact get_text hrest hname hvalue

theorem nodeStops_eq_false {items : Items} (h : ItemsReservedText items) : nodeStops items = false := by
  unfold nodeStops
  split
  · next hshell _ =>
    obtain ⟨text, htext⟩ := get_text h (by simp [reservedKeys]) hshell
    cases htext
  · rfl

mutual
theorem stops_eq_false : (t : Toml) → ReservedText t → stops t = false
  | .value _, _ => rfl
  | .table items, h => by
    rw [stops, nodeStops_eq_false h, itemsStop_eq_false items h]
    rfl
theorem itemsStop_eq_false : (items : Items) → ItemsReservedText items → itemsStop items = false
  | .nil, _ => rfl
  | .cons key value rest, ⟨_, hvalue, hrest⟩ => by
    rw [itemsStop, itemsStop_eq_false rest hrest, stops_eq_false value hvalue]
    simp
end

theorem treeStops_eq_false {tree : Items} (h : ItemsReservedText tree) : treeStops tree = false := by
  match tree, h with
  | .nil, _ => rfl
  | .cons key value rest, ⟨_, hvalue, hrest⟩ =>
    rw [treeStops, stops_eq_false value hvalue, treeStops_eq_false hrest]
    rfl

variable (lower : List Char → List Char)

/-- The text spells the command at a path: every word in its long or its short form. -/
def Spells (path : List (List Char)) (isQuery : Bool) (s : List Char) : Prop :=
  ∃ forms, List.Forall₂ (fun form word => form = abbreviation lower word ∨ form = lower word) forms path ∧
    s = [':'].intercalate forms ++ if isQuery then ['?'] else []

theorem mem_spellings_iff {d : Declaration} {s : List Char} :
    s ∈ d.spellings lower ↔ Spells lower d.path d.isQuery s := by
  rw [mem_spellings]
  simp only [mem_choices, mem_getScpiForms, Spells, eq_comm (a := s)]

/-- What the SCPI dictionary holds for the tables of a tree: the spellings of their commands,
each with the handler of the last command it spells. -/
structure Tabulates (ns : List Node) (scpi : Dict Toml) : Prop where
  keys_iff : ∀ s, s ∈ scpi.keys ↔ ∃ n ∈ ns, ∃ isQuery,
    (n.items.get (if isQuery then handlerScpiQuery else handlerScpiSet)).isSome ∧
      Spells lower n.path isQuery s
  items_iff : ∀ s handler, (s, handler) ∈ scpi.items ↔ ∃ d,
    LastWith (fun d => Spells lower d.path d.isQuery s) (ns.flatMap Node.declarations) d ∧ d.handler = handler

variable {lower}

theorem mem_declarations {n : Node} {d : Declaration} :
    d ∈ n.declarations ↔ d.path = n.path ∧
      n.items.get (if d.isQuery then handlerScpiQuery else handlerScpiSet) = some d.handler := by
  obtain ⟨path, isQuery, handler⟩ := d
  rw [Node.declarations, nodeDeclarations, List.mem_append, Option.mem_toList, Option.mem_toList,
    Option.map_eq_some_iff, Option.map_eq_some_iff]
  cases isQuery <;> simp [eq_comm, and_comm]

theorem tabulates (ns : List Node) :
    Tabulates lower ns (Dict.empty.setAll (spelled lower (ns.flatMap Node.declarations))) := by
  have hitems (s : List Char) (handler : Toml) :
      (s, handler) ∈ (Dict.empty.setAll (spelled lower (ns.flatMap Node.declarations))).items ↔ ∃ d,
        LastWith (fun d => Spells lower d.path d.isQuery s) (ns.flatMap Node.declarations) d ∧
          d.handler = handler := by
    simp only [← mem_spellings_iff]
    exact mem_setAll_iff (Declaration.spellings lower) Declaration.handler _
  refine ⟨fun s => ?_, hitems⟩
  calc s ∈ (Dict.empty.setAll (spelled lower (ns.flatMap Node.declarations))).keys
      ↔ ∃ d ∈ ns.flatMap Node.declarations, Spells lower d.path d.isQuery s := by
        rw [← exists_lastWith_iff, Dict.keys, List.mem_map]
        constructor
        · rintro ⟨⟨_, handler⟩, hmem, rfl⟩
          obtain ⟨d, hd, -⟩ := (hitems _ handler).mp hmem
          exact ⟨d, hd⟩
        · rintro ⟨d, hd⟩
          exact ⟨(s, d.handler), (hitems s d.handler).mpr ⟨d, hd, rfl⟩, rfl⟩
    _ ↔ _ := by
        simp only [List.mem_flatMap, mem_declarations, Option.isSome_iff_exists]
        constructor
        · rintro ⟨⟨path, isQuery, handler⟩, ⟨n, hn, rfl, hhandler⟩, hspells⟩
          exact ⟨n, hn, isQuery, ⟨handler, hhandler⟩, hspells⟩
        · rintro ⟨n, hn, isQuery, ⟨handler, hhandler⟩, hspells⟩
          exact ⟨⟨n.path, isQuery, handler⟩, ⟨n, hn, rfl, hhandler⟩, hspells⟩

theorem Fills.some {ds : List Declaration} {entries : Entries} {result : Option Entries}
    (h : Fills lower ds false entries result) :
    ∃ entries', result = .some entries' ∧ entries'.scpi = entries.scpi.setAll (spelled lower ds) := by
  cases hresult : result with
  | none => exact absurd (h.stopped.mp hresult) (by simp)
  | some entries' => exact ⟨entries', rfl, h.filled entries' hresult⟩

variable (lower)

/-- The SCPI table is the spellings of the tree, after `extract_commands` at any table and
after the whole script. -/
theorem scpi_entries_tabulated (tree : Items) (htext : ItemsReservedText tree) :
    (∀ path shell, ∃ entries, extractCommands lower (.table tree) path ⟨Dict.empty, shell⟩ = some entries ∧
      Tabulates lower (nodes (.table tree) path) entries.scpi) ∧
    ∃ entries, main lower tree = some entries ∧ Tabulates lower (nodesIn tree []) entries.scpi := by
  constructor
  · intro path shell
    have hfills : Fills lower _ _ _ _ := extractCommands_fills (.table tree) path ⟨Dict.empty, shell⟩
    rw [stops_eq_false (.table tree) htext] at hfills
    obtain ⟨entries, hentries, hscpi⟩ := Fills.some hfills
    refine ⟨entries, hentries, ?_⟩
    rw [hscpi, declarations_eq, visited_eq (.table tree) path htext]
    exact tabulates _
  · have hfills : Fills lower _ _ _ _ := mainLoop_fills tree ⟨Dict.empty, Dict.empty⟩
    rw [treeStops_eq_false htext] at hfills
    obtain ⟨entries, hentries, hscpi⟩ := Fills.some hfills
    refine ⟨entries, hentries, ?_⟩
    rw [hscpi, treeDeclarations_eq, visitedByMain_eq tree htext]
    exact tabulates _

theorem logger_tabulated :
    ItemsReservedText loggerTree ∧ ∃ entries, main (List.map Char.toLower) loggerTree = some entries ∧
      Tabulates (List.map Char.toLower) (nodesIn loggerTree []) entries.scpi := by
  have htext : ItemsReservedText loggerTree := by
    simp [loggerTree, ItemsReservedText, ReservedText]
    decide
  exact ⟨htext, (scpi_entries_tabulated (List.map Char.toLower) loggerTree htext).2⟩

/-! ## Handlers that reach neither table -/

structure ShellCommand where
  name : List Char
  handler : Toml

/-- The shell command of a table that has both keys, with a name that is no table. -/
def Node.shellCommands (n : Node) : List ShellCommand :=
  match n.items.get shellKey, n.items.get handlerShell with
  | some (.value name), some handler => [⟨name, handler⟩]
  | _, _ => []

/-- What the script stores for a list of shell commands. -/
def named (cs : List ShellCommand) : List (List Char × Toml) :=
  cs.flatMap fun c => [c.name].map (·, c.handler)

/-- What a part of the script leaves in the shell table, unless it stops. -/
def FillsShell (ns : List Node) (entries : Entries) (result : Option Entries) : Prop :=
  ∀ entries', result = some entries' →
    entries'.shell = entries.shell.setAll (named (ns.flatMap Node.shellCommands))

theorem FillsShell.done (entries : Entries) : FillsShell [] entries (some entries) := by
  intro entries' h
  cases h
  rfl

theorem FillsShell.bind {ns ns' : List Node} {entries : Entries} {result : Option Entries}
    {f : Entries → Option Entries} (h : FillsShell ns entries result)
    (h' : ∀ e, FillsShell ns' e (f e)) : FillsShell (ns ++ ns') entries (result.bind f) := by
  intro entries' hbind
  obtain ⟨e, he, hf⟩ := Option.bind_eq_some_iff.mp hbind
  rw [h' e entries' hf, h e he, List.flatMap_append, named, named, named, List.flatMap_append,
    Dict.setAll_append]

variable {lower}

theorem addNode_fillsShell (items : Items) (path : List (List Char)) (entries : Entries) :
    FillsShell [⟨path, items⟩] entries (addNode lower items path entries) := by
  intro entries' h
  rw [List.flatMap_singleton, Node.shellCommands]
  simp only [addNode] at h ⊢
  split at h
  · next hname hhandler =>
    cases h
    rw [hname, hhandler]
    rfl
  · cases h
  · next hother _ =>
    cases h
    split
    · next name handler hname hhandler => exact (hother name handler hname hhandler).elim
    · rfl

mutual
theorem extractCommands_fillsShell : (t : Toml) → (path : List (List Char)) → (entries : Entries) →
    FillsShell (visited t path) entries (extractCommands lower t path entries)
  | .value _, _, entries => FillsShell.done entries
  | .table items, path, entries =>
    (addNode_fillsShell items path entries).bind fun e => extractItems_fillsShell items path e
theorem extractItems_fillsShell : (items : Items) → (path : List (List Char)) → (entries : Entries) →
    FillsShell (visitedIn items path) entries (extractItems lower items path entries)
  | .nil, _, entries => FillsShell.done entries
  | .cons key value rest, path, entries => by
    rw [visitedIn, extractItems]
    by_cases hkey : key ∈ reservedKeys
    · rw [if_pos hkey, if_pos hkey, List.nil_append]
      exact extractItems_fillsShell rest path entries
    · rw [if_neg hkey, if_neg hkey]
      exact (extractCommands_fillsShell value (path ++ [key]) entries).bind fun e =>
        extractItems_fillsShell rest path e
end

theorem mainLoop_fillsShell (tree : Items) (entries : Entries) :
    FillsShell (visitedByMain tree) entries (mainLoop lower tree entries) := by
  match tree with
  | .nil => exact FillsShell.done entries
  | .cons key value rest =>
    exact (extractCommands_fillsShell value [key] entries).bind fun e => mainLoop_fillsShell rest e

/-- Some table of the tree, the top included, has the string under a key that begins with `handler_`. -/
def DeclaresHandler (tree : Items) (handler : List Char) : Prop :=
  ∃ n ∈ nodes (.table tree) [], ∃ key, "handler_".toList <+: key ∧ n.items.get key = some (.value handler)

/-- The handler of an entry of a generated table. -/
def Emitted (entries : Entries) (handler : List Char) : Prop :=
  ∃ name, (name, Toml.value handler) ∈ entries.scpi.items ∨ (name, Toml.value handler) ∈ entries.shell.items

variable (lower)

/-- Every declared handler is in a table, unless the script stops with an error. -/
def LosesNoHandler (tree : Items) : Prop :=
  ∀ entries, main lower tree = some entries →
    ∀ handler, DeclaresHandler tree handler → Emitted entries handler

/-- A visited table has the handler under a key that the script knows, and one of the names it
gets is not taken over by a command met later. -/
def Reachable (tree : Items) (handler : List Char) : Prop :=
  (∃ s d, LastWith (fun d => Spells lower d.path d.isQuery s)
      ((visitedByMain tree).flatMap Node.declarations) d ∧ d.handler = .value handler) ∨
    ∃ name c, LastWith (fun c => c.name = name) ((visitedByMain tree).flatMap Node.shellCommands) c ∧
      c.handler = .value handler

theorem emitted_iff {tree : Items} {entries : Entries} (hmain : main lower tree = some entries)
    (handler : List Char) : Emitted entries handler ↔ Reachable lower tree handler := by
  have hfills : Fills lower _ _ _ (mainLoop lower tree _) := mainLoop_fills tree ⟨Dict.empty, Dict.empty⟩
  have hscpi := hfills.filled entries hmain
  rw [treeDeclarations_eq] at hscpi
  have hshell := mainLoop_fillsShell tree _ entries hmain
  rw [Emitted, exists_or, Reachable]
  apply or_congr
  · apply exists_congr
    intro s
    rw [hscpi]
    exact (tabulates _).items_iff s _
  · apply exists_congr
    intro name
    rw [hshell, named, mem_setAll_iff]
    simp only [List.mem_singleton, eq_comm (a := name)]

/-- No handler is lost exactly when the script stops at the tree or every declared handler is
reachable. -/
theorem losesNoHandler_iff (tree : Items) :
    LosesNoHandler lower tree ↔ treeStops tree = true ∨
      ∀ handler, DeclaresHandler tree handler → Reachable lower tree handler := by
  have hfills : Fills lower _ _ _ (main lower tree) := mainLoop_fills tree ⟨Dict.empty, Dict.empty⟩
  rw [← hfills.stopped]
  unfold LosesNoHandler
  cases hmain : main lower tree with
  | none => simp
  | some entries =>
    simp only [Option.some.injEq, reduceCtorEq, false_or, forall_eq', emitted_iff lower hmain]

/-- The shipped tree names `shell_log` under keys that the script does not know. -/
theorem shellLog_lost :
    ¬ ∀ (lower : List Char → List Char) (tree : Items), LosesNoHandler lower tree := by
  intro h
  let lower : List Char → List Char := List.map Char.toLower
  have hfills : Fills lower (treeDeclarations loggerTree) false _ (main lower loggerTree) :=
    mainLoop_fills loggerTree ⟨Dict.empty, Dict.empty⟩
  obtain ⟨entries, hmain, -⟩ := Fills.some hfills
  have hdeclared : DeclaresHandler loggerTree "shell_log".toList :=
    ⟨(nodes (.table loggerTree) []).get ⟨2, by decide⟩, List.get_mem _ _, "handler_shell_set".toList, by decide, rfl⟩
  have hreachable := (emitted_iff lower hmain _).mp (h lower loggerTree entries hmain _ hdeclared)
  rcases hreachable with ⟨s, d, hd, hhandler⟩ | ⟨name, c, hc, -⟩
  · have hhandlers : ((visitedByMain loggerTree).flatMap Node.declarations).map Declaration.handler =
        ["scpi_log_subscribe", "scpi_log_unsubscribe", "scpi_log_list"].map
          fun text => Toml.value text.toList := rfl
    have hmem := List.mem_map_of_mem (f := Declaration.handler) hd.holds.1
    rw [hhandlers, hhandler] at hmem
    simp at hmem
  · have hnone : (visitedByMain loggerTree).flatMap Node.shellCommands = [] := rfl
    rw [hnone] at hc
    exact not_lastWith_nil hc

end EtherBench.Parser.GeneratedTables
