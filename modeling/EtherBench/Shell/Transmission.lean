import EtherBench.Library.Memory
import EtherBench.Shell.Bridges

/-! # How the USB stream hands its data over

`hw_transmit` of `ShellStreamCdc.cpp` against every behaviour of `ux_device_class_cdc_acm_write`. A
`size_t` and a `ULONG` have 32 bits.
-/

namespace EtherBench.Shell.Transmission
open Library.Memory Bridges

/-- What `ux_device_class_cdc_acm_write` does with a request. A call that fails may have sent something. -/
inductive Answer (requested : UInt32) where
  | success (actualLength : UInt32) (pos : 1 ≤ actualLength) (le : actualLength ≤ requested)
  | failure (sent : UInt32) (le : sent ≤ requested)

abbrev Host := ℕ → (requested : UInt32) → Answer requested

structure Call where
  /-- where the chunk starts in `data` -/
  offset : UInt32
  chunkSize : UInt32
  sent : UInt32
  failed : Bool
  deriving DecidableEq

structure Progress where
  bytesRemaining : UInt32
  /-- `current_ptr`, counted from `data` -/
  current : UInt32
  calls : List Call
  deriving DecidableEq

def maxPacketSize : UInt32 := 64

def chunkSize (bytesRemaining : UInt32) : UInt32 :=
  if bytesRemaining > maxPacketSize then maxPacketSize else bytesRemaining

/-- The loop; `none` when it has not ended after `turns` turns. -/
def transmitLoop (host : Host) : ℕ → Progress → Option Progress
  | 0, s => if s.bytesRemaining > 0 then none else some s
  | turns + 1, s =>
    if s.bytesRemaining > 0 then
      match host s.calls.length (chunkSize s.bytesRemaining) with
      | .failure sent _ =>
        some { s with calls := s.calls ++ [⟨s.current, chunkSize s.bytesRemaining, sent, true⟩] }
      | .success actualLength _ _ =>
        transmitLoop host turns
          { bytesRemaining := s.bytesRemaining - actualLength
            current := s.current + actualLength
            calls := s.calls ++ [⟨s.current, chunkSize s.bytesRemaining, actualLength, false⟩] }
    else some s

def hwTransmit (stream : ShellStreamCdc) (host : Host) (length : UInt32) (turns : ℕ) : Option Progress :=
  if stream.connected then transmitLoop host turns ⟨length, 0, []⟩ else some ⟨length, 0, []⟩

section Delivery
variable (data : ℕ → UInt8) (length : UInt32)

def sentBytes (calls : List Call) : List UInt8 :=
  calls.flatMap fun c => slice data c.offset.toNat c.sent.toNat

/-- What a transmission owes the host: small packets from inside the buffer, in order, and all of them
unless a call fails. -/
structure Delivers (connected : Bool) (calls : List Call) : Prop where
  packet : ∀ c ∈ calls, c.chunkSize ≤ 64
  inside : ∀ c ∈ calls, c.offset.toNat + c.chunkSize.toNat ≤ length.toNat
  inOrder : sentBytes data calls <+: slice data 0 length.toNat
  whole : connected = true → (∀ c ∈ calls, c.failed = false) → sentBytes data calls = slice data 0 length.toNat
  silent : connected = false → calls = []

/-- The invariant of the loop while no call has failed. -/
structure Sound (s : Progress) : Prop where
  split : s.current.toNat + s.bytesRemaining.toNat = length.toNat
  packet : ∀ c ∈ s.calls, c.chunkSize ≤ 64
  inside : ∀ c ∈ s.calls, c.offset.toNat + c.chunkSize.toNat ≤ length.toNat
  sent : sentBytes data s.calls = slice data 0 s.current.toNat

variable {data length}

theorem chunkSize_le (bytesRemaining : UInt32) :
    chunkSize bytesRemaining ≤ 64 ∧ chunkSize bytesRemaining ≤ bytesRemaining := by
  rw [chunkSize]
  split
  · next h => exact ⟨UInt32.le_refl _, UInt32.le_of_lt h⟩
  · next h => exact ⟨UInt32.not_lt.mp h, UInt32.le_refl _⟩

theorem slice_prefix {a b : ℕ} (h : a ≤ b) : slice data 0 a <+: slice data 0 b := by
  obtain ⟨d, rfl⟩ := Nat.exists_eq_add_of_le h
  rw [slice_add]
  exact List.prefix_append _ _

theorem Sound.call {s : Progress} (hs : Sound data length s) (failed : Bool) {sent : UInt32}
    (hsent : sent ≤ chunkSize s.bytesRemaining) :
    let calls := s.calls ++ [⟨s.current, chunkSize s.bytesRemaining, sent, failed⟩]
    (∀ c ∈ calls, c.chunkSize ≤ 64) ∧
      (∀ c ∈ calls, c.offset.toNat + c.chunkSize.toNat ≤ length.toNat) ∧
      sentBytes data calls = slice data 0 (s.current.toNat + sent.toNat) ∧
      s.current.toNat + sent.toNat ≤ length.toNat := by
  have hsplit := hs.split
  obtain ⟨hpacket, hremaining⟩ := chunkSize_le s.bytesRemaining
  rw [UInt32.le_iff_toNat_le] at hsent hremaining
  refine ⟨?_, ?_, ?_, by omega⟩
  · rw [List.forall_mem_append, List.forall_mem_singleton]
    exact ⟨hs.packet, hpacket⟩
  · rw [List.forall_mem_append, List.forall_mem_singleton]
    refine ⟨hs.inside, ?_⟩
    change s.current.toNat + (chunkSize s.bytesRemaining).toNat ≤ length.toNat
    omega
  · rw [sentBytes, List.flatMap_append, ← sentBytes, hs.sent, slice_add]
    simp

theorem Sound.turn {s : Progress} (hs : Sound data length s) {actualLength : UInt32}
    (hle : actualLength ≤ chunkSize s.bytesRemaining) :
    Sound data length
      { bytesRemaining := s.bytesRemaining - actualLength
        current := s.current + actualLength
        calls := s.calls ++ [⟨s.current, chunkSize s.bytesRemaining, actualLength, false⟩] } := by
  obtain ⟨hpacket, hinside, hsent, htotal⟩ := hs.call false hle
  have hcurrent : (s.current + actualLength).toNat = s.current.toNat + actualLength.toNat := by
    rw [UInt32.toNat_add, Nat.mod_eq_of_lt (htotal.trans_lt length.toNat_lt)]
  have hremaining : actualLength ≤ s.bytesRemaining := UInt32.le_trans hle (chunkSize_le _).2
  refine ⟨?_, hpacket, hinside, ?_⟩
  · have hsplit := hs.split
    rw [UInt32.le_iff_toNat_le] at hremaining
    rw [hcurrent, UInt32.toNat_sub_of_le _ _ (UInt32.le_iff_toNat_le.mpr hremaining)]
    omega
  · rw [hsent, hcurrent]

theorem transmitLoop_done {s : Progress} (hdone : ¬ s.bytesRemaining > 0) (host : Host) (turns : ℕ) :
    transmitLoop host turns s = some s := by
  cases turns with
  | zero => exact if_neg hdone
  | succ turns => exact if_neg hdone

theorem Sound.delivers {s : Progress} (hs : Sound data length s) (hdone : ¬ s.bytesRemaining > 0) :
    Delivers data length true s.calls := by
  have hzero : s.bytesRemaining.toNat = 0 := by
    rw [gt_iff_lt, UInt32.lt_iff_toNat_lt] at hdone
    exact Nat.eq_zero_of_not_pos hdone
  have hcurrent : s.current.toNat = length.toNat := by
    have hsplit := hs.split
    omega
  have hsent := hs.sent
  rw [hcurrent] at hsent
  exact ⟨hs.packet, hs.inside, hsent ▸ List.prefix_rfl, fun _ _ => hsent, fun h => Bool.noConfusion h⟩

theorem Sound.delivers_failure {s : Progress} (hs : Sound data length s) {sent : UInt32}
    (hsent : sent ≤ chunkSize s.bytesRemaining) :
    Delivers data length true (s.calls ++ [⟨s.current, chunkSize s.bytesRemaining, sent, true⟩]) := by
  obtain ⟨hpacket, hinside, hbytes, htotal⟩ := hs.call true hsent
  refine ⟨hpacket, hinside, ?_, fun _ hnone => ?_, fun h => Bool.noConfusion h⟩
  · rw [hbytes]
    exact slice_prefix htotal
  · have hlast := hnone _ List.mem_concat_self
    cases hlast

theorem transmitLoop_failure {host : Host} {s : Progress} (hmore : s.bytesRemaining > 0) {sent : UInt32}
    {hsent : sent ≤ chunkSize s.bytesRemaining}
    (hanswer : host s.calls.length (chunkSize s.bytesRemaining) = .failure sent hsent) (turns : ℕ) :
    transmitLoop host (turns + 1) s =
      some { s with calls := s.calls ++ [⟨s.current, chunkSize s.bytesRemaining, sent, true⟩] } := by
  rw [transmitLoop, if_pos hmore, hanswer]

theorem transmitLoop_success {host : Host} {s : Progress} (hmore : s.bytesRemaining > 0) {actualLength : UInt32}
    {hpos : 1 ≤ actualLength} {hle : actualLength ≤ chunkSize s.bytesRemaining}
    (hanswer : host s.calls.length (chunkSize s.bytesRemaining) = .success actualLength hpos hle) (turns : ℕ) :
    transmitLoop host (turns + 1) s = transmitLoop host turns
      { bytesRemaining := s.bytesRemaining - actualLength
        current := s.current + actualLength
        calls := s.calls ++ [⟨s.current, chunkSize s.bytesRemaining, actualLength, false⟩] } := by
  rw [transmitLoop, if_pos hmore, hanswer]

theorem Sound.start : Sound data length ⟨length, 0, []⟩ where
  split := Nat.zero_add _
  packet := List.forall_mem_nil _
  inside := List.forall_mem_nil _
  sent := rfl

variable (data length)

/-- The loop ends after at most as many turns as there are bytes left, since each success takes one off. -/
theorem transmitLoop_delivers (host : Host) (count : ℕ) (s : Progress) (hs : Sound data length s)
    (hcount : s.bytesRemaining.toNat ≤ count) :
    ∃ t, (∀ turns, count ≤ turns → transmitLoop host turns s = some t) ∧ Delivers data length true t.calls := by
  induction count generalizing s with
  | zero =>
    have hdone : ¬ s.bytesRemaining > 0 := by
      rw [gt_iff_lt, UInt32.lt_iff_toNat_lt]
      exact Nat.not_lt.mpr hcount
    exact ⟨s, fun turns _ => transmitLoop_done hdone host turns, hs.delivers hdone⟩
  | succ count ih =>
    by_cases hmore : s.bytesRemaining > 0
    · cases hanswer : host s.calls.length (chunkSize s.bytesRemaining) with
      | failure sent hsent =>
        refine ⟨{ s with calls := _ }, fun turns hturns => ?_, hs.delivers_failure hsent⟩
        obtain ⟨d, rfl⟩ := Nat.exists_eq_add_of_le' (Nat.le_of_add_left_le hturns)
        exact transmitLoop_failure hmore hanswer d
      | success actualLength hpos hle =>
        have hless : (s.bytesRemaining - actualLength).toNat ≤ count := by
          rw [UInt32.toNat_sub_of_le _ _ (UInt32.le_trans hle (chunkSize_le _).2)]
          rw [UInt32.le_iff_toNat_le, UInt32.toNat_one] at hpos
          omega
        obtain ⟨t, ht, hdelivers⟩ := ih _ (hs.turn hle) hless
        refine ⟨t, fun turns hturns => ?_, hdelivers⟩
        obtain ⟨d, rfl⟩ := Nat.exists_eq_add_of_le' (Nat.le_of_add_left_le hturns)
        rw [transmitLoop_success hmore hanswer]
        exact ht d (by omega)
    · exact ⟨s, fun turns _ => transmitLoop_done hmore host turns, hs.delivers hmore⟩

/-- Every buffer, every length and every host: the loop ends, and a stream that is connected delivers. -/
theorem hwTransmit_delivers (stream : ShellStreamCdc) (host : Host) :
    ∃ t, (∀ turns, length.toNat ≤ turns → hwTransmit stream host length turns = some t) ∧
      Delivers data length stream.connected t.calls := by
  cases hconnected : stream.connected with
  | true =>
    obtain ⟨t, ht, hdelivers⟩ := transmitLoop_delivers data length host length.toNat _ Sound.start le_rfl
    refine ⟨t, fun turns hturns => ?_, hdelivers⟩
    rw [hwTransmit, if_pos hconnected]
    exact ht turns hturns
  | false =>
    refine ⟨⟨length, 0, []⟩, fun turns _ => if_neg (by simp [hconnected]), ?_⟩
    exact ⟨List.forall_mem_nil _, List.forall_mem_nil _, List.nil_prefix, fun h => Bool.noConfusion h, fun _ => rfl⟩

end Delivery

/-- Before a terminal is connected nothing is sent and no call fails. -/
theorem disconnected_not_delivered :
    ¬ ∀ (data : ℕ → UInt8) (length : UInt32) (stream : ShellStreamCdc) (host : Host) (t : Progress),
      hwTransmit stream host length length.toNat = some t → (∀ c ∈ t.calls, c.failed = false) →
        sentBytes data t.calls = slice data 0 length.toNat := by
  intro h
  have hsent := h (fun _ => 65) 1 usbStream (fun _ _ => .failure 0 (UInt32.le_iff_toNat_le.mpr (Nat.zero_le _)))
    ⟨1, 0, []⟩ rfl (List.forall_mem_nil _)
  exact absurd hsent (by decide)

theorem slice_getD (str : List UInt8) : slice (fun i => str.getD i 0) 0 str.length = str := by
  apply List.ext_getElem?
  intro i
  rw [slice_getElem?]
  split
  · next hi => simp [hi]
  · next hi => rw [List.getElem?_eq_none (Nat.not_lt.mp hi)]

/-- What the stream is said to transmit is what the host has got, when no call fails. -/
theorem transmit_sent {stream : ShellStreamCdc} (hconnected : stream.connected = true) {str : List UInt8}
    (hlength : str.length < 2 ^ 32) {host : Host} {t : Progress}
    (ht : hwTransmit stream host (.ofNat str.length) str.length = some t)
    (hnone : ∀ c ∈ t.calls, c.failed = false) :
    (stream.base.transmit str).transmitted =
      stream.base.transmitted ++ sentBytes (fun i => str.getD i 0) t.calls := by
  have hsize : (UInt32.ofNat str.length).toNat = str.length := UInt32.toNat_ofNat_of_lt' hlength
  obtain ⟨t', ht', hdelivers⟩ := transmitLoop_delivers (fun i => str.getD i 0) (.ofNat str.length) host
    str.length _ Sound.start hsize.le
  rw [hwTransmit, if_pos hconnected, ht' str.length le_rfl] at ht
  cases ht
  rw [hdelivers.whole rfl hnone, hsize, slice_getD]
  rfl

end EtherBench.Shell.Transmission
