import EtherBench.Nand.Contracts
import EtherBench.Nand.PageStore

/-! # The driver over the store of pages

On a chip whose array works, each write and read of the driver that returns `LX_SUCCESS` does
to the store of pages what it stands for.
-/

namespace EtherBench.Nand.RoundTrip
open Device Hal Driver Operations Contracts PageStore Library.Effects Library.Memory Library.Triples

/-- No program or erase fails, and every load of a page brings in the page. -/
def Reliable (w : World) : Prop := ∀ time, (w.env time).damage = none ∧ (w.env time).misread = none

/-- What is known about the chip and the staging buffer on a bus to a reliable array. -/
def At (J : Chip → Page → Prop) (w : World) : Prop := Reliable w ∧ J w.chip w.buffer

def Holds (pages : Pages) (chip : Chip) (_ : Page) : Prop := chip.page = pages

def Writable (pages : Pages) (chip : Chip) (_ : Page) : Prop := chip.protection = 0 ∧ chip.page = pages

variable {J J' : Chip → Page → Prop} {pages : Pages} {block page n : ℕ}

/-! ## Calls that succeed -/

theorem At.congr {w v : World} (h : At J w) (henv : v.env = w.env) (hJ : J' v.chip v.buffer) :
    At J' v := by
  refine ⟨fun time => ?_, hJ⟩
  rw [henv]
  exact h.1 time

theorem call_at {call : HalCall} {answer : World → Bool} {after : World → World}
    (henv : ∀ w, (after w).env = w.env)
    (hJ : ∀ w, At J w → answer w = true → J' (after w).chip (after w).buffer) :
    Triple (At J) (require fun w => .ok (answer w) (w.record call (answer w) (after w)))
      (fun _ => At J') (fun _ => True) := by
  apply triple_exchange
  · intro w hw hanswer
    exact hw.congr (henv w) (hJ w hw hanswer)
  · exact fun _ _ _ => trivial

theorem command_at {c : Command}
    (h : ∀ chip buffer (r : Reaction), r.damage = none → r.misread = none → J chip buffer →
      J' (chip.execute r c) buffer) :
    Triple (At J) (require (halXspiCommand c)) (fun _ => At J') (fun _ => True) := by
  apply call_at
  · exact fun w => w.exchange_env (·.execute w.reaction c)
  · intro w hw haccepts
    change J' (w.exchange (·.execute w.reaction c)).chip (w.exchange (·.execute w.reaction c)).buffer
    rw [World.exchange_of_accepts haccepts, World.exchange_buffer]
    exact h w.chip w.buffer w.reaction (hw.1 w.time).1 (hw.1 w.time).2 hw.2

theorem transmit_at {c : Command} {data : List UInt8}
    (h : ∀ chip buffer, J chip buffer → J' (chip.take data c) buffer) :
    Triple (At J) (require (halXspiTransmit c data)) (fun _ => At J') (fun _ => True) := by
  apply call_at
  · exact fun w => w.exchange_env _
  · intro w hw haccepts
    change J' (w.exchange (·.take data c)).chip (w.exchange (·.take data c)).buffer
    rw [World.exchange_of_accepts haccepts, World.exchange_buffer]
    exact h w.chip w.buffer hw.2

theorem id_at {w : World} (h : J w.chip w.buffer) : J (w.exchange id).chip (w.exchange id).buffer := by
  rw [World.exchange_id_chip, World.exchange_buffer]
  exact h

theorem getFlashDmaDone_at :
    Triple (At J) (require getFlashDmaDone) (fun _ => At J) (fun _ => True) := by
  apply call_at
  · exact fun w => w.exchange_env id
  · exact fun w hw _ => id_at hw.2

theorem dma_at (size : ℕ) :
    Triple (At J) (if size > gd25DmaThreshold then require getFlashDmaDone else pure ())
      (fun _ => At J) (fun _ => True) :=
  triple_ite (fun _ => getFlashDmaDone_at) fun _ => triple_pure () fun _ hw => hw

theorem checkStatus_at : Triple (At J) checkStatus (fun _ => At J) (fun _ => True) := by
  apply triple_checkStatus_kept
  · intro w hw
    apply hw.congr
    · exact w.exchange_env (·.execute w.reaction statusCommand)
    · change J (w.exchange (·.execute w.reaction statusCommand)).chip
        (w.exchange (·.execute w.reaction statusCommand)).buffer
      rw [exchange_status_chip, World.exchange_buffer]
      exact hw.2
  · exact fun w ok hw => hw.congr (w.exchange_env id) (id_at hw.2)
  · exact fun _ _ _ => trivial
  · exact preserves_bind (fun _ _ => trivial) fun _ => preserves_pure _ ()

theorem waitForComplete_at : Triple (At J) waitForComplete (fun _ => At J) (fun _ => True) := by
  have hdrain : Triple (At J) drainFlashWip (fun _ => At J) (fun _ => True) :=
    fun w hw => hw.congr (w.exchange_env id) (id_at hw.2)
  apply triple_bind hdrain
  intro _
  have hstatus : Triple (At J) (require (halXspiCommand statusCommand)) (fun _ => At J) (fun _ => True) :=
    command_at fun _ _ _ _ _ h => h
  apply triple_bind hstatus
  intro _
  have hpoll : Triple (At J) (require halXspiAutoPollingIt) (fun _ => At J) (fun _ => True) := by
    apply call_at
    · exact fun w => w.exchange_env id
    · exact fun w hw _ => id_at hw.2
  apply triple_bind hpoll
  intro _
  have hget : Triple (At J) (require getFlashWip) (fun _ => At J) (fun _ => True) := by
    apply call_at
    · exact fun w => w.exchange_env id
    · exact fun w hw _ => id_at hw.2
  apply triple_bind hget
  exact fun _ => checkStatus_at

/-! ## Writes -/

theorem transmit_loads (column length size : ℕ) (staged : Page) :
    Triple (At fun chip buffer => Writable pages chip buffer ∧ buffer = staged)
      (transmit (.programLoadX4 column length) size)
      (fun _ => At fun chip buffer =>
        Writable pages chip buffer ∧ chip.cache = overlay erasedPage column ((List.range size).map staged))
      (fun _ => True) := by
  have hget : Triple (At fun chip buffer => Writable pages chip buffer ∧ buffer = staged)
      (get : Driver World)
      (fun w => At fun chip buffer => Writable pages chip buffer ∧ w.buffer = staged) (fun _ => True) :=
    triple_get fun w hw => hw
  apply triple_bind hget
  intro w
  have hload : Triple (At fun chip buffer => Writable pages chip buffer ∧ w.buffer = staged)
      (require (halXspiCommand (.programLoadX4 column length)))
      (fun _ => At fun chip buffer =>
        (Writable pages chip buffer ∧ w.buffer = staged) ∧ chip.cache = erasedPage) (fun _ => True) :=
    command_at fun _ _ _ _ _ h => ⟨h, rfl⟩
  apply triple_bind hload
  intro _
  have htransmit : Triple
      (At fun chip buffer => (Writable pages chip buffer ∧ w.buffer = staged) ∧ chip.cache = erasedPage)
      (require (halXspiTransmit (.programLoadX4 column length) ((List.range size).map w.buffer)))
      (fun _ => At fun chip buffer =>
        Writable pages chip buffer ∧ chip.cache = overlay erasedPage column ((List.range size).map staged))
      (fun _ => True) := by
    apply transmit_at
    rintro chip buffer ⟨⟨hwritable, hbuffer⟩, hcache⟩
    refine ⟨hwritable, ?_⟩
    change overlay chip.cache column _ = _
    rw [hcache, hbuffer]
  apply triple_bind htransmit
  exact fun _ => dma_at size

theorem genericWrite_programs (mainBuffer spareBuffer : Source) (mainSize spareSize spareOffset : ℕ) :
    Triple (At (Writable pages))
      (genericWrite block page mainBuffer mainSize spareBuffer spareSize spareOffset)
      (fun _ => At (Writable (programmed pages (rowAddr block page)
        (loadedAt mainBuffer mainSize spareBuffer spareSize spareOffset)))) (fun _ => True) := by
  let staged := stage mainBuffer mainSize spareBuffer spareSize spareOffset
  let cache := loadedAt mainBuffer mainSize spareBuffer spareSize spareOffset
  have hstage : Triple (At (Writable pages)) (modify fun w => { w with buffer := staged } : Driver Unit)
      (fun _ => At fun chip buffer => Writable pages chip buffer ∧ buffer = staged) (fun _ => True) :=
    triple_modify fun w hw => ⟨hw.1, hw.2, rfl⟩
  apply triple_bind hstage
  intro _
  apply triple_bind (transmit_loads _ _ _ staged)
  intro _
  have henable : Triple (At fun chip buffer => Writable pages chip buffer ∧ chip.cache = cache) writeEnable
      (fun _ => At fun chip buffer =>
        (Writable pages chip buffer ∧ chip.cache = cache) ∧ chip.writeEnabled = true) (fun _ => True) :=
    command_at fun _ _ _ _ _ h => ⟨h, rfl⟩
  apply triple_bind henable
  intro _
  have hprogram : Triple (At fun chip buffer =>
        (Writable pages chip buffer ∧ chip.cache = cache) ∧ chip.writeEnabled = true)
      (require (halXspiCommand (.programExecute (rowAddr block page))))
      (fun _ => At (Writable (programmed pages (rowAddr block page) cache))) (fun _ => True) := by
    apply command_at
    rintro chip buffer r hdamage - ⟨⟨⟨hprotection, hpages⟩, hcache⟩, henabled⟩
    rw [Chip.execute, henabled, hprotection, hdamage]
    refine ⟨hprotection, ?_⟩
    change Function.update chip.page _ _ = _
    rw [hpages, hcache]
    rfl
  apply triple_bind hprogram
  exact fun _ => waitForComplete_at

theorem genericWrite_layout (mainBuffer spareBuffer : Source) (hn : n ≤ gd25PageOob) :
    Triple (At (Writable pages))
      (genericWrite block page mainBuffer (sizeOf mainBuffer.isSome gd25PageSize) spareBuffer
        (sizeOf spareBuffer.isSome n) 0)
      (fun _ => At (Writable (programmed pages (rowAddr block page)
        (layout (area mainBuffer) (firstBytes n (area spareBuffer)))))) (fun _ => True) := by
  rw [← loaded_layout mainBuffer spareBuffer hn]
  exact genericWrite_programs mainBuffer spareBuffer _ _ 0

theorem advance_isSome (source : Source) (n : ℕ) : (source.advance n).isSome = source.isSome :=
  Option.isSome_map

/-- Every turn programs the next page with the next part of both buffers. -/
theorem pagesWrite_written (mainBuffer spareBuffer : Source) {count : ℕ}
    (hcount : page + count ≤ gd25BlockPages) :
    Triple (At (Writable pages)) (pagesWrite block page mainBuffer spareBuffer count)
      (fun _ => At (Writable (written pages block page mainBuffer spareBuffer count))) (fun _ => True) := by
  have hturn : ∀ i, 0 ≤ i → i < 0 + count →
      Triple (At (Writable (written pages block page mainBuffer spareBuffer i)))
        (genericWrite block (ulong (page + i)) (mainBuffer.advance (i * gd25PageSize))
          (sizeOf mainBuffer.isSome gd25PageSize) (spareBuffer.advance (i * gd25PageOob))
          (sizeOf spareBuffer.isSome gd25PageOob) 0)
        (fun _ => At (Writable (written pages block page mainBuffer spareBuffer (i + 1)))) (fun _ => True) := by
    intro i _ hi
    have hulong : ulong (page + i) = page + i := by
      apply ulong_eq
      rw [gd25BlockPages] at hcount
      omega
    have hwrite : Triple (At (Writable (written pages block page mainBuffer spareBuffer i)))
        (genericWrite block (page + i) _ _ _ _ 0) _ _ :=
      genericWrite_layout (mainBuffer.advance (i * gd25PageSize)) (spareBuffer.advance (i * gd25PageOob))
        (Nat.le_refl gd25PageOob)
    rw [layout_firstBytes, advance_isSome, advance_isSome, funext (area_advance mainBuffer _),
      funext (area_advance spareBuffer _)] at hwrite
    rw [hulong]
    exact hwrite
  have hloop := triple_forRange hturn
  rw [Nat.zero_add] at hloop
  exact hloop

/-! ## Reads -/

theorem receive_fetches (column length size : ℕ) (cache : Page) :
    Triple (At fun chip buffer => (Holds pages chip buffer ∧ chip.cache = cache) ∧ buffer = erasedPage)
      (receive (.readFromCacheQio column length) size)
      (fun _ => At fun chip buffer => Holds pages chip buffer ∧ buffer = fetched cache column length)
      (fun _ => True) := by
  let Loaded : Chip → Page → Prop := fun chip buffer =>
    (Holds pages chip buffer ∧ chip.cache = cache) ∧ buffer = erasedPage
  let bytes := (List.range length).map fun i => cache (column + i)
  have hcommand : Triple (At Loaded) (require (halXspiCommand (.readFromCacheQio column length)))
      (fun _ => At Loaded) (fun _ => True) := command_at fun _ _ _ _ _ h => h
  apply triple_bind hcommand
  intro _
  have hreceive : Triple (At Loaded) (halXspiReceive (.readFromCacheQio column length))
      (fun received w => At Loaded w ∧ ∀ data, received = some data → data = bytes) (fun _ => True) := by
    intro w hw
    refine ⟨hw.congr (w.exchange_env id) (id_at hw.2), fun data hdata => ?_⟩
    cases haccepts : w.accepts with
    | false =>
      rw [haccepts] at hdata
      cases hdata
    | true =>
      rw [haccepts] at hdata
      cases hdata
      change (List.range length).map (fun i => w.chip.cache (column + i)) = bytes
      rw [hw.2.1.2]
  apply triple_bind hreceive
  intro received
  have hstore : Triple (fun w => At Loaded w ∧ ∀ data, received = some data → data = bytes)
      (storeReceived received)
      (fun _ => At fun chip buffer => Holds pages chip buffer ∧ buffer = fetched cache column length)
      (fun _ => True) := by
    cases received with
    | none => exact triple_throw lxError fun _ _ => trivial
    | some data =>
      apply triple_modify
      intro w hw
      refine ⟨hw.1.1, hw.1.2.1.1, ?_⟩
      change overlay w.buffer 0 data = _
      rw [hw.2 data rfl, hw.1.2.2]
      rfl
  apply triple_bind hstore
  exact fun _ => dma_at size

theorem genericRead_taken (mainGiven : Bool) (mainSize : ℕ) (spareGiven : Bool) (spareSize spareOffset : ℕ) :
    Triple (At (Holds pages)) (genericRead block page mainGiven mainSize spareGiven spareSize spareOffset)
      (fun read w => read = taken (pages (rowAddr block page)) mainGiven mainSize spareGiven spareSize
        spareOffset ∧ At (Holds pages) w) (fun _ => True) := by
  let cache := pages (rowAddr block page)
  have hload : Triple (At (Holds pages)) (require (halXspiCommand (.readToCache (rowAddr block page))))
      (fun _ => At fun chip buffer => Holds pages chip buffer ∧ chip.cache = cache) (fun _ => True) := by
    apply command_at
    intro chip buffer r _ hmisread hpages
    refine ⟨hpages, ?_⟩
    change r.misread.getD (chip.page (rowAddr block page)) = cache
    rw [hmisread, hpages]
    rfl
  apply triple_bind hload
  intro _
  apply triple_bind (triple_orThrow waitForComplete_at lxError)
  intro _
  have hclear : Triple (At fun chip buffer => Holds pages chip buffer ∧ chip.cache = cache)
      (modify fun w => { w with buffer := erasedPage } : Driver Unit)
      (fun _ => At fun chip buffer => (Holds pages chip buffer ∧ chip.cache = cache) ∧ buffer = erasedPage)
      (fun _ => True) := triple_modify fun w hw => ⟨hw.1, hw.2, rfl⟩
  apply triple_bind hclear
  intro _
  apply triple_bind (receive_fetches _ _ _ cache)
  intro _ w hw
  refine ⟨?_, hw.1, hw.2.1⟩
  have hbuffer : w.buffer = fetched cache (startColumn mainGiven spareOffset)
      (xferSize mainGiven mainSize spareGiven spareSize) := hw.2.2
  rw [hbuffer]
  rfl

/-- A read of a page stores the columns of the areas that are asked for. -/
theorem genericRead_columns (mainGiven spareGiven : Bool) (hn : n ≤ gd25PageOob) :
    Triple (At (Holds pages))
      (genericRead block page mainGiven (sizeOf mainGiven gd25PageSize) spareGiven (sizeOf spareGiven n) 0)
      (fun read w => read = (if mainGiven then slice (pages (rowAddr block page)) 0 gd25PageSize else [],
        if spareGiven then slice (pages (rowAddr block page)) gd25PageSize n else []) ∧ At (Holds pages) w)
      (fun _ => True) := by
  rw [← fetched_main _ mainGiven spareGiven hn, ← fetched_spare _ mainGiven spareGiven hn]
  exact genericRead_taken mainGiven _ spareGiven _ 0

/-- What is read of the pages of a range: the columns of the areas that are asked for. -/
def readout (pages : Pages) (block first count : ℕ) (mainGiven spareGiven : Bool) :
    List UInt8 × List UInt8 :=
  (if mainGiven then columns pages block 0 gd25PageSize first count else [],
    if spareGiven then columns pages block gd25PageSize gd25PageOob first count else [])

theorem pagesReadLoop_columns (mainGiven spareGiven : Bool) (i count : ℕ)
    (hcount : page + i + count ≤ gd25BlockPages) :
    Triple (At (Holds pages)) (pagesReadLoop block page mainGiven spareGiven i count)
      (fun read w => read = readout pages block (page + i) count mainGiven spareGiven ∧ At (Holds pages) w)
      (fun _ => True) := by
  induction count generalizing i with
  | zero =>
    apply triple_pure
    intro w hw
    refine ⟨?_, hw⟩
    cases mainGiven <;> cases spareGiven <;> rfl
  | succ count ih =>
    have hulong : ulong (page + i) = page + i := by
      apply ulong_eq
      rw [gd25BlockPages] at hcount
      omega
    rw [pagesReadLoop, hulong]
    apply triple_bind (genericRead_columns mainGiven spareGiven (Nat.le_refl gd25PageOob))
    rintro first w ⟨rfl, hw⟩
    have hrest := ih (i + 1) (by omega)
    rw [← Nat.add_assoc] at hrest
    refine triple_bind hrest (fun rest => triple_pure _ ?_) w hw
    rintro v ⟨rfl, hv⟩
    refine ⟨?_, hv⟩
    rw [readout, readout, columns_succ, columns_succ]
    cases mainGiven <;> cases spareGiven <;> simp only [if_true, if_false, Bool.false_eq_true, List.nil_append]

variable {v w : World}

/-- Every successful `pages_read` reads the array. -/
theorem pagesRead_readout (hreliable : Reliable v) {first count : ℕ} {mainGiven spareGiven : Bool}
    (hcount : first + count ≤ gd25BlockPages) {read : List UInt8 × List UInt8} {u : World}
    (hread : pagesRead block first mainGiven spareGiven count v = .ok read u) :
    read = readout v.chip.page block first count mainGiven spareGiven := by
  have hloop : Triple (At (Holds v.chip.page)) (pagesReadLoop block first mainGiven spareGiven 0 count) _ _ :=
    pagesReadLoop_columns mainGiven spareGiven 0 count hcount
  exact (hloop.of_ok ⟨hreliable, rfl⟩ hread).1

theorem extraBytesGet_slice (hreliable : Reliable v) (hn : n ≤ gd25PageOob) {bytes : List UInt8} {u : World}
    (hget : extraBytesGet block page n v = .ok bytes u) :
    bytes = slice (v.chip.page (rowAddr block page)) gd25PageSize n := by
  have hread : Triple (At (Holds v.chip.page)) (extraBytesGet block page n)
      (fun bytes _ => bytes = slice (v.chip.page (rowAddr block page)) gd25PageSize n) (fun _ => True) := by
    apply triple_bind (genericRead_columns false true hn)
    rintro read
    apply triple_pure
    rintro w ⟨rfl, -⟩
    rfl
  exact hread.of_ok ⟨hreliable, rfl⟩ hget

/-- The bytes in a range of pages are those of the two buffers, and ones where none was given. -/
def ReadsBack (block page count : ℕ) (mainBuffer spareBuffer : Source) (v : World) : Prop :=
  (∀ mainGiven spareGiven read u, pagesRead block page mainGiven spareGiven count v = .ok read u →
    read = (if mainGiven then slice (area mainBuffer) 0 (count * gd25PageSize) else [],
      if spareGiven then slice (area spareBuffer) 0 (count * gd25PageOob) else [])) ∧
  (∀ i < count, ∀ n ≤ gd25PageOob, ∀ bytes u, extraBytesGet block (page + i) n v = .ok bytes u →
    bytes = slice (area spareBuffer) (i * gd25PageOob) n) ∧
  (∀ bytes u, blockStatusGet block v = .ok bytes u → bytes = [v.chip.page (rowAddr block 0) gd25PageSize] ∧
    (page = 0 → 0 < count → bytes = [area spareBuffer 0]))

/-- A program that sets spare bytes of one page which are still erased: these bytes are read back
at their places, no main area has changed, and no other page. -/
def SetsSpare (x : Driver Unit) (row n : ℕ) (bytes : ℕ → UInt8) (v : World) : Prop :=
  (∀ i < n, v.chip.page row (gd25PageSize + i) = 0xFF) → ∀ u, x v = .ok () u →
    (∀ other, other ≠ row → u.chip.page other = v.chip.page other) ∧
    ∀ block first count mainGiven spareGiven read t, first + count ≤ gd25BlockPages →
      pagesRead block first mainGiven spareGiven count u = .ok read t →
      read = (if mainGiven then columns v.chip.page block 0 gd25PageSize first count else [],
        if spareGiven then columns (setSpare v.chip.page row n bytes) block gd25PageSize gd25PageOob first count
        else [])

theorem extraBytesSet_setsSpare (hreliable : Reliable v) (hprotection : v.chip.protection = 0)
    (hn : n ≤ gd25PageOob) (bytes : ℕ → UInt8) :
    SetsSpare (extraBytesSet block page (some bytes) n) (rowAddr block page) n bytes v := by
  intro herased u hset
  have hwrite : Triple (At (Writable v.chip.page)) (extraBytesSet block page (some bytes) n) _ _ :=
    genericWrite_layout none (some bytes) hn
  have hu := hwrite.of_ok ⟨hreliable, hprotection, rfl⟩ hset
  have hpages : u.chip.page = setSpare v.chip.page (rowAddr block page) n bytes :=
    hu.2.2.trans (programmed_spare bytes hn herased)
  constructor
  · intro other hother
    rw [hpages]
    exact Function.update_of_ne hother _ _
  · intro readBlock first count mainGiven spareGiven read t hcount hread
    rw [pagesRead_readout hu.1 hcount hread, hpages, readout, columns_setSpare]

/-- Whatever areas are written to erased pages, all ways to read them agree with what was
written, and nothing else changes; so it is for spare bytes that are set afterwards. -/
theorem pages_round_trip {t : World} {count : ℕ} {mainBuffer spareBuffer : Source}
    (hreliable : Reliable w) (hprotection : w.chip.protection = 0) (hblock : block < gd25BlockCountNormal)
    (hcount : page + count ≤ gd25BlockPages)
    (herased : ∀ i < count, ∀ c < gd25PageTotal, w.chip.page (rowAddr block (page + i)) c = 0xFF)
    (hwrite : pagesWrite block page mainBuffer spareBuffer count w = .ok () t) :
    (∀ row, (∀ i < count, row ≠ rowAddr block (page + i)) → t.chip.page row = w.chip.page row) ∧
      ∀ v, Reliable v → v.chip.page = t.chip.page →
        ReadsBack block page count mainBuffer spareBuffer v ∧
          (v.chip.protection = 0 → ∀ setBlock setPage bytes,
            (∀ n ≤ gd25PageOob, SetsSpare (extraBytesSet setBlock setPage (some bytes) n)
              (rowAddr setBlock setPage) n bytes v) ∧
            SetsSpare (blockStatusSet setBlock (bytes 0)) (rowAddr setBlock 0) 1 (fun _ => bytes 0) v) := by
  have hstored := (pagesWrite_written mainBuffer spareBuffer hcount).of_ok ⟨hreliable, hprotection, rfl⟩ hwrite
  have hpages : t.chip.page = written w.chip.page block page mainBuffer spareBuffer count := hstored.2.2
  constructor
  · intro row hrow
    rw [hpages]
    exact written_other hrow
  · intro v hv hsame
    rw [hpages] at hsame
    refine ⟨⟨?_, ?_, ?_⟩, fun hunprotected setBlock setPage bytes => ⟨fun n hn => ?_, ?_⟩⟩
    · intro mainGiven spareGiven read u hread
      rw [pagesRead_readout hv hcount hread, readout, hsame, columns_main hblock hcount herased,
        columns_spare hblock hcount herased]
    · intro i hi n hn bytes u hget
      rw [extraBytesGet_slice hv hn hget, hsame]
      exact slice_spare hblock hcount herased hi hn
    · intro bytes u hget
      have hone : 1 ≤ gd25PageOob := by decide
      have hfirst : bytes = slice (v.chip.page (rowAddr block 0)) gd25PageSize 1 :=
        extraBytesGet_slice hv hone hget
      refine ⟨hfirst, ?_⟩
      rintro rfl hpositive
      rw [hfirst, hsame]
      exact slice_spare hblock hcount herased hpositive hone
    · exact extraBytesSet_setsSpare hv hunprotected hn bytes
    · exact extraBytesSet_setsSpare hv hunprotected (by decide) fun _ => bytes 0

/-- The main areas of two pages, and then the first spare bytes of the second one. -/
def twoPages : Driver Unit := pagesWrite 3 5 (some UInt8.ofNat) none 2

def marks (i : ℕ) : UInt8 := .ofNat (i + 1)

theorem pages_round_trip_twoPages : ∃ t u, twoPages (fresh fun _ => smooth) = .ok () t ∧
    ReadsBack 3 5 2 (some UInt8.ofNat) none t ∧ extraBytesSet 3 6 (some marks) 4 t = .ok () u ∧
    (∀ row, row ≠ rowAddr 3 6 → u.chip.page row = t.chip.page row) ∧
    ∀ read v, pagesRead 3 5 true true 2 u = .ok read v →
      read = (columns t.chip.page 3 0 gd25PageSize 5 2,
        columns (setSpare t.chip.page (rowAddr 3 6) 4 marks) 3 gd25PageSize gd25PageOob 5 2) := by
  have hreliable : Reliable (fresh fun _ => smooth) := fun _ => ⟨rfl, rfl⟩
  have hcount : 5 + 2 ≤ gd25BlockPages := by decide
  have hwrite := eq_ok_of_succeeds (x := twoPages) (s := fresh fun _ => smooth) (by decide +kernel)
  generalize ht : final twoPages (fresh fun _ => smooth) = t at hwrite
  have hset := eq_ok_of_succeeds (x := extraBytesSet 3 6 (some marks) 4) (s := t) (by rw [← ht]; decide +kernel)
  have hspare : ∀ i < 4, t.chip.page (rowAddr 3 6) (gd25PageSize + i) = 0xFF := by
    rw [← ht]
    decide +kernel
  have hstored := (pagesWrite_written (some UInt8.ofNat) none hcount).of_ok ⟨hreliable, rfl, rfl⟩ hwrite
  obtain ⟨-, hreads⟩ := pages_round_trip hreliable rfl (by decide) hcount (fun _ _ _ _ => rfl) hwrite
  obtain ⟨hback, hsets⟩ := hreads t hstored.1 rfl
  obtain ⟨hothers, hread⟩ := (hsets hstored.2.1 3 6 marks).1 4 (by decide) hspare _ hset
  exact ⟨t, _, hwrite, hback, hset, hothers, fun read v hpages => hread 3 5 2 true true read v (by decide) hpages⟩

/-- Spare bytes that have been written cannot be set again: a program only clears bits. -/
theorem spare_not_set : ¬ ∀ (w t u v : World) (block page : ℕ) (spare bytes : ℕ → UInt8)
    (read : List UInt8 × List UInt8), Reliable w → w.chip.protection = 0 → block < gd25BlockCountNormal →
    page < gd25BlockPages → (∀ c < gd25PageTotal, w.chip.page (rowAddr block page) c = 0xFF) →
    pagesWrite block page none (some spare) 1 w = .ok () t → extraBytesSet block page (some bytes) 1 t = .ok () u →
    pagesRead block page false true 1 u = .ok read v → read.2.head? = some (bytes 0) := by
  intro h
  have hwrite := eq_ok_of_succeeds (x := pagesWrite 3 0 none (some fun _ => 0) 1) (s := fresh fun _ => smooth)
    (by decide +kernel)
  generalize ht : final (pagesWrite 3 0 none (some fun _ => 0) 1) (fresh fun _ => smooth) = t at hwrite
  have hset := eq_ok_of_succeeds (x := extraBytesSet 3 0 (some fun _ => 7) 1) (s := t) (by rw [← ht]; decide +kernel)
  generalize hu : final (extraBytesSet 3 0 (some fun _ => 7) 1) t = u at hset
  have hzero : (match pagesRead 3 0 false true 1 u with
      | .ok read _ => read.2.head?
      | .error _ _ => none) = some 0 := by
    rw [← hu, ← ht]
    decide +kernel
  cases hread : pagesRead 3 0 false true 1 u with
  | error e v =>
    rw [hread] at hzero
    cases hzero
  | ok read v =>
    rw [hread] at hzero
    have hseven := h _ t u v 3 0 _ _ read (fun _ => ⟨rfl, rfl⟩) rfl (by decide) (by decide) (fun _ _ => rfl)
      hwrite hset hread
    exact absurd (hzero.symm.trans hseven) (by decide)

end EtherBench.Nand.RoundTrip
