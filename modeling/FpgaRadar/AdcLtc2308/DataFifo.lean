import FpgaRadar.Arith.Gray

/-!
# The FIFO between the two clocks

This file embeds `adc_data_fifo.v`, whose `dcfifo` is generated as `dcfifo_s7q1.tdf`.  Its write
side and its read side run on different clocks and see the pointer of the other side late.  It
refines a queue that counts what either side knows of the other: a word is shown, and taken, once
the read side knows of it, requests are ignored while it knows of none, and writes are ignored while
the write side knows of no room.
-/

namespace FpgaRadar
namespace AdcDataFifo

open Gray

variable {α : Type*}

/-- The registers of `dcfifo_s7q1`.  A pointer is the number whose code is in its register.  The
counters `wrptr_g1p` and `rdptr_g1p` are one ahead of their pointers, and the address register of
the read port of the RAM is changed and cleared together with `rdptr_g`, from which it follows. -/
structure Dcfifo (α : Type*) where
  /-- `fifo_ram`. -/
  fifoRam : BitVec 11 → α
  /-- `wrptr_g`. -/
  wrptr : BitVec 12
  /-- `delayed_wrptr_g`. -/
  delayedWrptr : BitVec 12
  /-- The two stages of `rs_dgwp`. -/
  rsDgwp : BitVec 12 × BitVec 12
  /-- `rdptr_g`. -/
  rdptr : BitVec 12
  /-- The two stages of `ws_dgrp`. -/
  wsDgrp : BitVec 12 × BitVec 12

/-- The address that belongs to a code, as in `ram_address_a` and `ram_address_b`. -/
def ramAddress (code : BitVec 12) : BitVec 11 :=
  BitVec.cons (code.getLsbD 11 ^^ code.getLsbD 10) (code.setWidth 10)

/-- `wrptr_gs`, with the two top bits inverted. -/
def wrptrGs (code : BitVec 12) : BitVec 12 := code ^^^ 0xC00#12

namespace Dcfifo

/-- `int_rdempty`, which is also `rdempty`. -/
def intRdempty (fifo : Dcfifo α) : Bool := decide (gray fifo.rsDgwp.2 = gray fifo.rdptr)

/-- `int_wrfull`, which is also `wrfull`. -/
def intWrfull (fifo : Dcfifo α) : Bool := decide (gray fifo.wsDgrp.2 = wrptrGs (gray fifo.wrptr))

/-- `q`. -/
def q (fifo : Dcfifo α) : α := fifo.fifoRam (ramAddress (gray fifo.rdptr))

/-- A rising edge of `wrclk`. -/
def wrclk (wrreq : Bool) (data : α) (fifo : Dcfifo α) : Dcfifo α :=
  let validWrreq := wrreq && !fifo.intWrfull
  { fifo with
    fifoRam :=
      if validWrreq then Function.update fifo.fifoRam (ramAddress (gray fifo.wrptr)) data
      else fifo.fifoRam
    wrptr := if validWrreq then fifo.wrptr + 1 else fifo.wrptr
    delayedWrptr := fifo.wrptr
    wsDgrp := (fifo.rdptr, fifo.wsDgrp.1) }

/-- A rising edge of `rdclk`. -/
def rdclk (rdreq : Bool) (fifo : Dcfifo α) : Dcfifo α :=
  let validRdreq := rdreq && !fifo.intRdempty
  { fifo with
    rdptr := if validRdreq then fifo.rdptr + 1 else fifo.rdptr
    rsDgwp := (fifo.delayedWrptr, fifo.rsDgwp.1) }

/-- `aclr` clears all registers but not the RAM. -/
def aclr (fifo : Dcfifo α) : Dcfifo α where
  fifoRam := fifo.fifoRam
  wrptr := 0
  delayedWrptr := 0
  rsDgwp := (0, 0)
  rdptr := 0
  wsDgrp := (0, 0)

end Dcfifo

/-! ## The queue -/

/-- A queue whose two sides know of each other's progress with a delay. -/
structure Queue (α : Type*) where
  /-- The words that have been accepted since it was cleared. -/
  written : List α
  /-- How many of them are on their way to the read side. -/
  announced : ℕ
  /-- How many of them will be known next. -/
  arriving : ℕ
  /-- How many of them the read side knows of. -/
  known : ℕ
  /-- How many of them have been taken. -/
  taken : ℕ
  /-- How many of the words taken will be known to the write side next. -/
  leaving : ℕ
  /-- How many of the words taken the write side knows of. -/
  freed : ℕ
  freed_le : freed ≤ leaving
  leaving_le : leaving ≤ taken
  taken_le : taken ≤ known
  known_le : known ≤ arriving
  arriving_le : arriving ≤ announced
  announced_le : announced ≤ written.length
  written_le : written.length ≤ freed + 2048

namespace Queue

/-- An edge of the write side that adds no word. -/
def pass (queue : Queue α) : Queue α where
  written := queue.written
  announced := queue.written.length
  arriving := queue.arriving
  known := queue.known
  taken := queue.taken
  leaving := queue.taken
  freed := queue.leaving
  freed_le := queue.leaving_le
  leaving_le := le_rfl
  taken_le := queue.taken_le
  known_le := queue.known_le
  arriving_le := queue.arriving_le.trans queue.announced_le
  announced_le := le_rfl
  written_le := queue.written_le.trans (Nat.add_le_add_right queue.freed_le 2048)

/-- An edge of the write side that adds a word. -/
def push (data : α) (queue : Queue α) (room : queue.written.length < queue.freed + 2048) :
    Queue α where
  written := queue.written ++ [data]
  announced := queue.written.length
  arriving := queue.arriving
  known := queue.known
  taken := queue.taken
  leaving := queue.taken
  freed := queue.leaving
  freed_le := queue.leaving_le
  leaving_le := le_rfl
  taken_le := queue.taken_le
  known_le := queue.known_le
  arriving_le := queue.arriving_le.trans queue.announced_le
  announced_le := by simp
  written_le := by
    have := queue.freed_le
    rw [List.length_append, List.length_singleton]
    omega

/-- An edge of the write side. -/
def wrclk (wrreq : Bool) (data : α) (queue : Queue α) : Queue α :=
  if room : wrreq = true ∧ queue.written.length < queue.freed + 2048 then queue.push data room.2
  else queue.pass

/-- An edge of the read side. -/
def rdclk (rdreq : Bool) (queue : Queue α) : Queue α where
  written := queue.written
  announced := queue.announced
  arriving := queue.announced
  known := queue.arriving
  taken := if rdreq = true ∧ queue.taken < queue.known then queue.taken + 1 else queue.taken
  leaving := queue.leaving
  freed := queue.freed
  freed_le := queue.freed_le
  leaving_le := by
    have := queue.leaving_le
    split_ifs <;> omega
  taken_le := by
    have := queue.taken_le
    have := queue.known_le
    split_ifs <;> omega
  known_le := queue.arriving_le
  arriving_le := le_rfl
  announced_le := queue.announced_le
  written_le := queue.written_le

/-- The queue without words. -/
def empty : Queue α where
  written := []
  announced := 0
  arriving := 0
  known := 0
  taken := 0
  leaving := 0
  freed := 0
  freed_le := le_rfl
  leaving_le := le_rfl
  taken_le := le_rfl
  known_le := le_rfl
  arriving_le := le_rfl
  announced_le := le_rfl
  written_le := Nat.zero_le _

end Queue

/-- The FIFO holds the words of the queue that have not been taken, and its pointers are the counts
of the queue modulo twice its size. -/
structure Represents (fifo : Dcfifo α) (queue : Queue α) : Prop where
  ram : ∀ n (bound : n < queue.written.length), queue.taken ≤ n →
    fifo.fifoRam (ramAddress (gray (BitVec.ofNat 12 n))) = queue.written[n]
  wrptr : fifo.wrptr = BitVec.ofNat 12 queue.written.length
  delayedWrptr : fifo.delayedWrptr = BitVec.ofNat 12 queue.announced
  rsDgwp : fifo.rsDgwp = (BitVec.ofNat 12 queue.arriving, BitVec.ofNat 12 queue.known)
  rdptr : fifo.rdptr = BitVec.ofNat 12 queue.taken
  wsDgrp : fifo.wsDgrp = (BitVec.ofNat 12 queue.leaving, BitVec.ofNat 12 queue.freed)

/-! ## Pointers -/

/-- Pointers at most half a turn apart are equal only if they count the same. -/
theorem pointer_inj {a b : ℕ} (lower : a ≤ b) (upper : b ≤ a + 2048) :
    BitVec.ofNat 12 b = BitVec.ofNat 12 a ↔ b = a := by
  rw [← BitVec.toNat_inj, BitVec.toNat_ofNat, BitVec.toNat_ofNat]
  omega

theorem pointer_succ (n : ℕ) : BitVec.ofNat 12 n + 1 = BitVec.ofNat 12 (n + 1) :=
  (BitVec.ofNat_add n 1).symm

theorem ramAddress_gray (x : BitVec 12) : ramAddress (gray x) = gray (x.setWidth 11) :=
  (gray_setWidth x).symm

/-- The RAM has room for all words between two such pointers. -/
theorem ramAddress_ne {n m : ℕ} (less : n < m) (upper : m < n + 2048) :
    ramAddress (gray (BitVec.ofNat 12 n)) ≠ ramAddress (gray (BitVec.ofNat 12 m)) := by
  intro same
  rw [ramAddress_gray, ramAddress_gray] at same
  have numbers := congrArg BitVec.toNat (gray_injective same)
  simp only [BitVec.toNat_setWidth, BitVec.toNat_ofNat] at numbers
  omega

theorem wrptrGs_gray (x : BitVec 12) : wrptrGs (gray x) = gray (x + BitVec.twoPow 12 11) :=
  (gray_add_half x).symm

namespace Represents

variable {fifo : Dcfifo α} {queue : Queue α}

theorem intRdempty_iff (represents : Represents fifo queue) :
    fifo.intRdempty = true ↔ queue.known = queue.taken := by
  have := queue.freed_le
  have := queue.leaving_le
  have := queue.known_le
  have := queue.arriving_le
  have := queue.announced_le
  have := queue.written_le
  rw [Dcfifo.intRdempty, decide_eq_true_iff, gray_injective.eq_iff, represents.rsDgwp,
    represents.rdptr]
  exact pointer_inj queue.taken_le (by omega)

theorem intWrfull_iff (represents : Represents fifo queue) :
    fifo.intWrfull = true ↔ queue.written.length = queue.freed + 2048 := by
  have := queue.freed_le
  have := queue.leaving_le
  have := queue.taken_le
  have := queue.known_le
  have := queue.arriving_le
  have := queue.announced_le
  have := queue.written_le
  rw [Dcfifo.intWrfull, decide_eq_true_iff, wrptrGs_gray, gray_injective.eq_iff, represents.wsDgrp,
    represents.wrptr, ← BitVec.toNat_inj, BitVec.toNat_add, BitVec.toNat_ofNat, BitVec.toNat_ofNat,
    BitVec.toNat_twoPow]
  omega

/-- While the read side knows of a word, the first one that has not been taken is shown. -/
theorem q_eq (represents : Represents fifo queue) (bound : queue.taken < queue.written.length) :
    fifo.q = queue.written[queue.taken] := by
  rw [Dcfifo.q, represents.rdptr]
  exact represents.ram queue.taken bound le_rfl

theorem pass (represents : Represents fifo queue) :
    Represents { fifo with delayedWrptr := fifo.wrptr, wsDgrp := (fifo.rdptr, fifo.wsDgrp.1) }
      queue.pass where
  ram := represents.ram
  wrptr := represents.wrptr
  delayedWrptr := represents.wrptr
  rsDgwp := represents.rsDgwp
  rdptr := represents.rdptr
  wsDgrp := by
    rw [represents.rdptr, represents.wsDgrp]
    rfl

theorem push (represents : Represents fifo queue) (data : α)
    (room : queue.written.length < queue.freed + 2048) :
    Represents
      { fifo with
        fifoRam := Function.update fifo.fifoRam (ramAddress (gray fifo.wrptr)) data
        wrptr := fifo.wrptr + 1
        delayedWrptr := fifo.wrptr
        wsDgrp := (fifo.rdptr, fifo.wsDgrp.1) }
      (queue.push data room) where
  ram n bound untaken := by
    have old := bound
    simp only [Queue.push, List.length_append, List.length_singleton, Nat.lt_succ_iff]
      at old untaken
    simp only [Queue.push, represents.wrptr]
    rcases old.lt_or_eq with earlier | rfl
    · have := queue.freed_le
      have := queue.leaving_le
      rw [Function.update_of_ne (ramAddress_ne earlier (by omega)),
        List.getElem_append_left earlier]
      exact represents.ram n earlier untaken
    · rw [Function.update_self, List.getElem_concat_length rfl]
  wrptr := by
    simp only [Queue.push, List.length_append, List.length_singleton]
    rw [represents.wrptr, pointer_succ]
  delayedWrptr := represents.wrptr
  rsDgwp := represents.rsDgwp
  rdptr := represents.rdptr
  wsDgrp := by
    rw [represents.rdptr, represents.wsDgrp]
    rfl

theorem wrclk (represents : Represents fifo queue) (wrreq : Bool) (data : α) :
    Represents (fifo.wrclk wrreq data) (queue.wrclk wrreq data) := by
  have written_le := queue.written_le
  by_cases room : wrreq = true ∧ queue.written.length < queue.freed + 2048
  · have free : fifo.intWrfull = false :=
      eq_false_of_ne_true fun full => room.2.ne (represents.intWrfull_iff.mp full)
    have accepted : (wrreq && !fifo.intWrfull) = true := by rw [room.1, free]; rfl
    rw [Queue.wrclk, dif_pos room, Dcfifo.wrclk, accepted]
    exact represents.push data room.2
  · have refused : (wrreq && !fifo.intWrfull) = false := by
      cases full : fifo.intWrfull with
      | true => exact Bool.and_false _
      | false =>
          have unfilled := mt represents.intWrfull_iff.mpr (ne_true_of_eq_false full)
          rw [Bool.not_false, Bool.and_true]
          exact eq_false_of_ne_true fun asked => room ⟨asked, by omega⟩
    rw [Queue.wrclk, dif_neg room, Dcfifo.wrclk, refused]
    exact represents.pass

theorem rdclk (represents : Represents fifo queue) (rdreq : Bool) :
    Represents (fifo.rdclk rdreq) (queue.rdclk rdreq) := by
  have taken_le := queue.taken_le
  have valid : (rdreq && !fifo.intRdempty) = true ↔
      rdreq = true ∧ queue.taken < queue.known := by
    rw [Bool.and_eq_true, Bool.not_eq_true', ← Bool.not_eq_true, represents.intRdempty_iff]
    exact and_congr_right fun _ => ⟨fun differ => by omega, fun less => less.ne'⟩
  refine ⟨fun n bound untaken => represents.ram n bound ?_, represents.wrptr,
    represents.delayedWrptr, ?_, ?_, represents.wsDgrp⟩
  · refine le_trans ?_ untaken
    simp only [Queue.rdclk]
    split_ifs <;> omega
  · simp only [Dcfifo.rdclk, represents.delayedWrptr, represents.rsDgwp]
    rfl
  · simp only [Dcfifo.rdclk, Queue.rdclk, valid]
    split_ifs
    · rw [represents.rdptr, pointer_succ]
    · exact represents.rdptr

theorem aclr (fifo : Dcfifo α) : Represents fifo.aclr Queue.empty where
  ram n bound := absurd bound (Nat.not_lt_zero n)
  wrptr := rfl
  delayedWrptr := rfl
  rsDgwp := rfl
  rdptr := rfl
  wsDgrp := rfl

end Represents

end AdcDataFifo
end FpgaRadar
