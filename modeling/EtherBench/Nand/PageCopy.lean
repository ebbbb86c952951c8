import EtherBench.Nand.Readiness

/-! # The on-chip copy

`page_copy` loads each page of the source into the cache of the chip and programs the cache into
the destination. The cache still holds the page when it is programmed, and where the copy stops
the pages before are complete and the others as they were.
-/

namespace EtherBench.Nand.PageCopy
open Device Hal Driver Operations Contracts PageStore RoundTrip Library.Effects Library.Triples

def copied (pages : Pages) (src dest : ℕ → ℕ) : ℕ → Pages
  | 0 => pages
  | i + 1 => programmed (copied pages src dest i) (dest i) (copied pages src dest i (src i))

variable {pages : Pages} {src dest : ℕ → ℕ}

theorem copied_other {n row : ℕ} (h : ∀ i < n, row ≠ dest i) : copied pages src dest n row = pages row := by
  induction n with
  | zero => rfl
  | succ n ih =>
    rw [copied, programmed, Function.update_of_ne (h n (Nat.lt_succ_self n))]
    exact ih fun i hi => h i (Nat.lt_succ_of_lt hi)

theorem copied_row {n i : ℕ} (hi : i < n) (hdest : ∀ i < n, ∀ j < n, dest i = dest j → i = j)
    (hdisjoint : ∀ i < n, ∀ j < n, src i ≠ dest j) :
    copied pages src dest n (dest i) = fun c => pages (dest i) c &&& pages (src i) c := by
  induction n with
  | zero => exact absurd hi (Nat.not_lt_zero i)
  | succ n ih =>
    have hlt : ∀ {j}, j < n → j < n + 1 := Nat.lt_succ_of_lt
    rw [copied, programmed]
    by_cases hlast : i = n
    · have hbefore : ∀ j < n, dest n ≠ dest j := fun j hj heq =>
        Nat.ne_of_gt hj (hdest n (Nat.lt_succ_self n) j (hlt hj) heq)
      have hsource : ∀ j < n, src n ≠ dest j := fun j hj => hdisjoint n (Nat.lt_succ_self n) j (hlt hj)
      rw [hlast, Function.update_self, copied_other hbefore, copied_other hsource]
    · have hother : dest i ≠ dest n := fun heq => hlast (hdest i hi n (Nat.lt_succ_self n) heq)
      rw [Function.update_of_ne hother]
      exact ih (by omega) (fun i hi j hj => hdest i (hlt hi) j (hlt hj))
        fun i hi j hj => hdisjoint i (hlt hi) j (hlt hj)

/-! ## What a call that is no program keeps -/

/-- The array holds the pages, whatever else has happened. -/
def Stores (pages : Pages) (w : World) : Prop := w.chip.page = pages

theorem exchange_stores {w : World} {effect : Chip → Chip} (hw : Stores pages w)
    (heffect : (effect w.chip).page = w.chip.page) : Stores pages (w.exchange effect) := by
  rw [Stores, World.exchange]
  split
  · exact heffect.trans hw
  · exact hw

theorem command_stores {c : Command} (hc : c.Spares Set.univ) : Preserves (Stores pages) (halXspiCommand c) := by
  intro w hw
  have hpage : (w.chip.execute w.reaction c).page = w.chip.page := by
    funext row
    exact execute_page hc w.chip w.reaction trivial
  have hafter : Stores pages (w.exchange (·.execute w.reaction c)) := exchange_stores hw hpage
  exact hafter

theorem waitForComplete_stores : Preserves (Stores pages) waitForComplete := by
  have hid : ∀ w : World, Stores pages w → Stores pages (w.exchange id) := fun w hw => exchange_stores hw rfl
  apply preserves_waitForComplete
  · exact hid
  · exact command_stores trivial
  · exact hid
  · exact hid
  · exact hid
  · exact command_stores trivial

/-! ## One page -/

/-- The array, and what the chip has in its cache. -/
def Cached (pages : Pages) (cache : Page) (chip : Chip) (buffer : Page) : Prop :=
  Writable pages chip buffer ∧ chip.cache = cache

variable {srcRow destRow : ℕ}

theorem load_caches :
    Triple (At (Writable pages)) (require (halXspiCommand (.readToCache srcRow)))
      (fun _ => At (Cached pages (pages srcRow))) (Stores pages) := by
  have hload : Triple (At (Writable pages)) (require (halXspiCommand (.readToCache srcRow)))
      (fun _ => At (Cached pages (pages srcRow))) (fun _ => True) := by
    apply command_at
    intro chip buffer r _ hmisread hw
    refine ⟨hw, ?_⟩
    change r.misread.getD (chip.page srcRow) = pages srcRow
    rw [hmisread, hw.2]
    rfl
  exact hload.error_of_preserves (preserves_require (command_stores trivial)) fun _ hw => hw.2.2

theorem wait_keeps {J : Chip → Page → Prop} (hJ : ∀ chip buffer, J chip buffer → chip.page = pages) :
    Triple (At J) (orThrow lxError waitForComplete) (fun _ => At J) (Stores pages) := by
  apply triple_orThrow
  exact waitForComplete_at.error_of_preserves waitForComplete_stores fun w hw => hJ w.chip w.buffer hw.2

theorem writeEnable_keeps {cache : Page} :
    Triple (At (Cached pages cache)) writeEnable
      (fun _ => At fun chip buffer => Cached pages cache chip buffer ∧ chip.writeEnabled = true)
      (Stores pages) := by
  have henable : Triple (At (Cached pages cache)) writeEnable
      (fun _ => At fun chip buffer => Cached pages cache chip buffer ∧ chip.writeEnabled = true) (fun _ => True) :=
    command_at fun _ _ _ _ _ h => ⟨h, rfl⟩
  exact henable.error_of_preserves (preserves_require (command_stores trivial)) fun _ hw => hw.2.1.2

/-- A program that is refused may have reached the chip all the same. -/
theorem program_copies {cache : Page} :
    Triple (At fun chip buffer => Cached pages cache chip buffer ∧ chip.writeEnabled = true)
      (require (halXspiCommand (.programExecute destRow)))
      (fun _ => At (Writable (programmed pages destRow cache)))
      (fun w => Stores pages w ∨ Stores (programmed pages destRow cache) w) := by
  have heffect : ∀ w, At (fun chip buffer => Cached pages cache chip buffer ∧ chip.writeEnabled = true) w →
      w.chip.execute w.reaction (.programExecute destRow) = w.chip.program destRow none ∧
        (w.chip.program destRow none).page = programmed pages destRow cache := by
    rintro w ⟨hreliable, ⟨⟨hprotection, hpages⟩, hcache⟩, henabled⟩
    constructor
    · rw [Chip.execute, henabled, hprotection, World.reaction, (hreliable w.time).1]
      rfl
    · change Function.update w.chip.page destRow _ = _
      rw [hpages, hcache]
      rfl
  apply triple_exchange
  · intro w hw haccepts
    obtain ⟨hexecute, hpage⟩ := heffect w hw
    apply hw.congr
    · exact w.exchange_env (·.execute w.reaction (.programExecute destRow))
    · change Writable _ (w.exchange (·.execute w.reaction (.programExecute destRow))).chip _
      rw [World.exchange_of_accepts haccepts, hexecute]
      exact ⟨hw.2.1.1.1, hpage⟩
  · intro w hw _
    obtain ⟨hexecute, hpage⟩ := heffect w hw
    change (ite _ (w.chip.execute w.reaction (.programExecute destRow)) w.chip).page = pages ∨
      (ite _ (w.chip.execute w.reaction (.programExecute destRow)) w.chip).page = programmed pages destRow cache
    split
    · right
      rw [hexecute]
      exact hpage
    · left
      exact hw.2.1.1.2

/-- One turn: the page is copied, or the turn ends early before or after that. -/
theorem copyOne_copies :
    Triple (At (Writable pages)) (copyOne srcRow destRow)
      (fun _ => At (Writable (programmed pages destRow (pages srcRow))))
      (fun w => Stores pages w ∨ Stores (programmed pages destRow (pages srcRow)) w) := by
  have hbefore {α : Type} {P : World → Prop} {x : Driver α} {Q : α → World → Prop}
      (h : Triple P x Q (Stores pages)) :
      Triple P x Q fun w => Stores pages w ∨ Stores (programmed pages destRow (pages srcRow)) w :=
    h.weaken (fun _ hw => hw) (fun _ _ hw => hw) fun _ => Or.inl
  apply triple_bind (hbefore load_caches)
  intro _
  apply triple_bind (hbefore (wait_keeps fun _ _ h => h.1.2))
  intro _
  apply triple_bind (hbefore writeEnable_keeps)
  intro _
  apply triple_bind program_copies
  intro _
  have hwait : Triple (At (Writable (programmed pages destRow (pages srcRow))))
      (orThrow lxError waitForComplete) _ (Stores (programmed pages destRow (pages srcRow))) :=
    wait_keeps fun _ _ h => h.2
  exact hwait.weaken (fun _ hw => hw) (fun _ _ hw => hw) fun _ => Or.inr

/-! ## The loop -/

def rows (block page i : ℕ) : ℕ := rowAddr block (page + i)

variable {srcBlock srcPage destBlock destPage n : ℕ}

theorem pageCopy_triple :
    Triple (At (Writable pages)) (pageCopy srcBlock srcPage destBlock destPage n)
      (fun _ => At (Writable (copied pages (rows srcBlock srcPage) (rows destBlock destPage) n)))
      (fun w => ∃ k ≤ n, Stores (copied pages (rows srcBlock srcPage) (rows destBlock destPage) k) w) := by
  have hturn : ∀ i, 0 ≤ i → i < 0 + n →
      Triple (At (Writable (copied pages (rows srcBlock srcPage) (rows destBlock destPage) i)))
        (copyOne (rowAddr srcBlock (srcPage + i)) (rowAddr destBlock (destPage + i)))
        (fun _ => At (Writable (copied pages (rows srcBlock srcPage) (rows destBlock destPage) (i + 1))))
        (fun w => ∃ k ≤ n, Stores (copied pages (rows srcBlock srcPage) (rows destBlock destPage) k) w) := by
    intro i _ hi
    apply copyOne_copies.weaken (fun _ hw => hw) (fun _ _ hw => hw)
    rintro w (hw | hw)
    · exact ⟨i, by omega, hw⟩
    · exact ⟨i + 1, by omega, hw⟩
  have hloop := triple_forRange hturn
  rw [Nat.zero_add] at hloop
  exact hloop

/-- The first `k` pages of the destination are those of the source, and every other page of the
array is as it was. -/
def CopiedPages (srcBlock srcPage destBlock destPage k : ℕ) (w t : World) : Prop :=
  (∀ i < k, ∀ c < gd25PageTotal,
    t.chip.page (rowAddr destBlock (destPage + i)) c = w.chip.page (rowAddr srcBlock (srcPage + i)) c) ∧
  ∀ row, (∀ i < k, row ≠ rowAddr destBlock (destPage + i)) → t.chip.page row = w.chip.page row

variable {w : World}

section
variable (hsrc : srcBlock < gd25BlockCountNormal) (hdest : destBlock < gd25BlockCountNormal)
  (hsrcPages : srcPage + n ≤ gd25BlockPages) (hdestPages : destPage + n ≤ gd25BlockPages)
  (hdisjoint : srcBlock ≠ destBlock ∨ srcPage + n ≤ destPage ∨ destPage + n ≤ srcPage)
  (herased : ∀ i < n, ∀ c < gd25PageTotal, w.chip.page (rowAddr destBlock (destPage + i)) c = 0xFF)
include hsrc hdest hsrcPages hdestPages hdisjoint herased

theorem copiedPages_of_stores {t : World} {k : ℕ} (hk : k ≤ n)
    (ht : Stores (copied w.chip.page (rows srcBlock srcPage) (rows destBlock destPage) k) t) :
    CopiedPages srcBlock srcPage destBlock destPage k w t := by
  have hsrcRow : ∀ i < k, rows srcBlock srcPage i = srcBlock * gd25BlockPages + (srcPage + i) :=
    fun i hi => rowAddr_eq hsrc (by omega)
  have hdestRow : ∀ i < k, rows destBlock destPage i = destBlock * gd25BlockPages + (destPage + i) :=
    fun i hi => rowAddr_eq hdest (by omega)
  have hinjective : ∀ i < k, ∀ j < k, rows destBlock destPage i = rows destBlock destPage j → i = j := by
    intro i hi j hj heq
    rw [hdestRow i hi, hdestRow j hj] at heq
    omega
  have hapart : ∀ i < k, ∀ j < k, rows srcBlock srcPage i ≠ rows destBlock destPage j := by
    intro i hi j hj
    rw [hsrcRow i hi, hdestRow j hj]
    simp only [gd25BlockPages] at *
    omega
  rw [Stores] at ht
  constructor
  · intro i hi c hc
    rw [ht]
    have hrow : copied w.chip.page _ _ k _ = _ := copied_row hi hinjective hapart
    have hcolumn := congrFun hrow c
    rw [rows, herased i (by omega) c hc, erased_and] at hcolumn
    exact hcolumn
  · intro row hrow
    rw [ht]
    exact copied_other hrow

/-- A copy that succeeds has copied every page and changed no other; one that fails has copied the
pages up to some place and changed no other. -/
theorem pageCopy_copies (hreliable : Reliable w) (hprotection : w.chip.protection = 0) :
    (∀ t, pageCopy srcBlock srcPage destBlock destPage n w = .ok () t →
      CopiedPages srcBlock srcPage destBlock destPage n w t) ∧
    ∀ status t, pageCopy srcBlock srcPage destBlock destPage n w = .error status t →
      ∃ k ≤ n, CopiedPages srcBlock srcPage destBlock destPage k w t := by
  have htriple : Triple (At (Writable w.chip.page)) (pageCopy srcBlock srcPage destBlock destPage n) _ _ :=
    pageCopy_triple
  have hcopy := htriple w ⟨hreliable, hprotection, rfl⟩
  constructor
  · intro t hok
    rw [hok] at hcopy
    exact copiedPages_of_stores hsrc hdest hsrcPages hdestPages hdisjoint herased (Nat.le_refl n) hcopy.2.2
  · intro status t herror
    rw [herror] at hcopy
    obtain ⟨k, hk, ht⟩ := hcopy
    exact ⟨k, hk, copiedPages_of_stores hsrc hdest hsrcPages hdestPages hdisjoint herased hk ht⟩

end

theorem pageCopy_ready : Triple Readiness.Ready (pageCopy srcBlock srcPage destBlock destPage n)
    (fun _ => Readiness.Ready) (fun _ => False) := by
  apply triple_forRange_kept
  intro i _ _
  apply triple_bind (Readiness.ready_contract.operate _ rfl ⟨_, rfl⟩)
  intro _
  apply triple_bind (triple_orThrow Readiness.waitForComplete_ready lxError)
  intro _
  apply triple_bind Readiness.writeEnable_ready
  intro _
  apply triple_bind (Readiness.program_ready _)
  exact fun _ => triple_orThrow Readiness.waitForComplete_ready lxError

/-- Every page of block 3 is full of its own row number. -/
def numbered : World :=
  { fresh fun _ => smooth with
    chip.page := fun row => if row / gd25BlockPages = 3 then fun _ => .ofNat row else erasedPage }

theorem pageCopy_twoPages : ∃ t, pageCopy 3 5 4 0 2 numbered = .ok () t ∧ CopiedPages 3 5 4 0 2 numbered t ∧
    t.chip.page (rowAddr 4 0) 0 = 197 ∧ t.chip.page (rowAddr 4 1) 0 = 198 := by
  have hready : Readiness.Ready numbered := ⟨fun _ => Readiness.smooth_obliging, rfl, rfl, by
    simp [Failed, numbered, fresh]⟩
  have hsucceeds : Triple Readiness.Ready (pageCopy 3 5 4 0 2) _ _ := pageCopy_ready
  obtain ⟨⟨⟩, t, hok, -⟩ := Readiness.ok_of_triple hsucceeds hready
  have herased : ∀ i < 2, ∀ c < gd25PageTotal, numbered.chip.page (rowAddr 4 (0 + i)) c = 0xFF := by
    intro i hi c _
    have hrow : rowAddr 4 (0 + i) / gd25BlockPages ≠ 3 := by
      have hrows : ∀ i < 2, rowAddr 4 (0 + i) / gd25BlockPages ≠ 3 := by decide
      exact hrows i hi
    exact congrFun (if_neg hrow) c
  have hcopied := (pageCopy_copies (by decide) (by decide) (by decide) (by decide) (Or.inl (by decide)) herased
    hready.reliable rfl).1 t hok
  exact ⟨t, hok, hcopied, hcopied.1 0 (by decide) 0 (by decide), hcopied.1 1 (by decide) 0 (by decide)⟩

end EtherBench.Nand.PageCopy
