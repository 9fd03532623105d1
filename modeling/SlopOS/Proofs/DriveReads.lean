import SlopOS.Kernel.Core
import SlopOS.Proofs.BlockTransfers
/-!
# The driver and a drive

With a drive that follows the packet protocol at one of the four positions, `storage_init` finds it,
and every read through the device table gives what the file system assumes of `storage_read`.
-/

namespace SlopOS.Proofs.DriveReads

open SlopOS.Kernel SlopOS.Proofs.BlockTransfers SlopOS.Support.PortBus SlopOS.Support.ByteMem
open SlopOS.Support.PacketDrive

/-- The drive sits where the driver looks for it, and no wait for it runs out. -/
structure Attached (d : Drive) (dev : AtapiDevice) : Prop where
  io : dev.ioBase = d.io
  ctrl : dev.ctrlBase = d.ctrl
  slave : d.slave = decide (dev.slave ≠ 0)
  punctual : ∀ k, d.delay k < ataTimeout

structure Settled (s : State) : Prop where
  free : s.phase = .idle ∨ s.phase = .aborted
  busy : s.busy < ataTimeout

variable {d : Drive} {dev : AtapiDevice} {s : State} {slave : U8}

/-! ## The driver's small steps on a drive -/

theorem select_eq : ataSelectDrive d.bus d.io slave s =
    { s with selected := decide (slave ≠ 0) == d.slave } := by
  refine outb_select.trans (congrArg (fun b => { s with selected := b == d.slave }) ?_)
  split
  · rename_i h
    exact (decide_eq_true h).symm
  · rename_i h
    exact (decide_eq_false h).symm

theorem ioWait_eq : ataIoWait d.bus d.ctrl s = { s with busy := s.busy - 4 } := by
  have hctrl : d.ctrl + 0 = d.ctrl := BitVec.add_zero _
  simp only [ataIoWait, hctrl, inb_ctrl, State.readStatus, Nat.sub_sub]

theorem notBusy_status (phase : Phase) : notBusy phase.status = some true := by
  cases phase with
  | idle => rfl
  | packet got => exact (rfl : notBusy 0x48 = some true)
  | data rest => exact (rfl : notBusy 0x48 = some true)
  | aborted => rfl

theorem notBusy_eq (hsel : s.selected = true) (hbusy : s.busy < ataTimeout) :
    ataWaitNotBusy d.bus d.io ataTimeout s = (true, { s with busy := 0 }) :=
  poll_settles hsel hbusy rfl (notBusy_status _)

theorem drq_packet (got : List Half) : drqOrError (Phase.packet got).status = some true :=
  (rfl : drqOrError 0x48 = some true)

theorem drq_data (rest : List Half) : drqOrError (Phase.data rest).status = some true :=
  (rfl : drqOrError 0x48 = some true)

theorem drq_aborted : drqOrError Phase.aborted.status = some false := rfl

theorem drq_enter {phase : Phase} {r : Bool} (hpunctual : ∀ k, d.delay k < ataTimeout)
    (hsel : s.selected = true) (hphase : drqOrError phase.status = some r) :
    ataWaitDrq d.bus d.io ataTimeout (d.enter s phase) =
      (r, { s with phase := phase, busy := 0, turns := s.turns + 1 }) :=
  @poll_settles d (d.enter s phase) ataTimeout drqOrError r hsel (hpunctual _) rfl hphase

theorem command_free (h : s.phase = .idle ∨ s.phase = .aborted) (v : Byte) :
    d.command s v =
      if v = 0xA0 then d.enter s (.packet [])
      else if v = 0xA1 then d.enter s (.data (halves d.identity 256))
      else if v = 0xEC then d.enter { s with lba1 := 0x14, lba2 := 0xEB } .aborted
      else d.enter s .aborted := by
  rcases h with h | h <;> rw [Drive.command, h]

/-! ## The packet -/

theorem or_shift (a b : U8) : (a.setWidth 16 ||| b.setWidth 16 <<< 8 : U16) = b ++ a := by
  refine BitVec.eq_of_getLsbD_eq fun i hi => ?_
  rw [BitVec.getLsbD_append (x := b) (y := a)]
  by_cases hlow : i < 8
  · simp [hlow, Nat.lt_of_lt_of_le hlow (show 8 ≤ 16 by decide)]
  · simp [hlow, hi, Nat.not_lt.mp hlow]

theorem halfByte_packetWords (lba : U32) {j : Nat} (hj : j < 12) :
    halfByte (packetWords lba) j = (readPacket lba).getD j 0 := by
  have hwords : packetWords lba = halves (fun j => (readPacket lba).getD j 0) 6 := by
    refine List.map_congr_left fun i _ => ?_
    rw [packetWord, or_shift, Nat.mul_comm]
  rw [hwords, halfByte_halves (by omega)]

theorem address_bytes (lba : U32) :
    (((lba >>> 24) &&& 0xFF).setWidth 8 ++ ((lba >>> 16) &&& 0xFF).setWidth 8 ++
      ((lba >>> 8) &&& 0xFF).setWidth 8 ++ (lba &&& 0xFF).setWidth 8 : U32) = lba := by
  have hbyte (k : Nat) : (((lba >>> k) &&& 0xFF).setWidth 8 : U8) = lba.extractLsb' k 8 :=
    field_of_shift (w := 8) (by decide) lba k
  have h0 : ((lba &&& 0xFF).setWidth 8 : U8) = lba.extractLsb' 0 8 := hbyte 0
  rw [hbyte, hbyte, hbyte, h0]
  exact wordOf_byteOf lba

theorem execute_packet (hlimit : s.lba2 ++ s.lba1 = (2048 : Half)) (lba : U32) :
    d.execute s (packetWords lba) =
      match d.sector lba with
      | some block => d.enter s (.data (halves block 1024))
      | none => d.enter s .aborted := by
  rw [Drive.execute]
  have hbyte (j : Nat) (hj : j < 12) := halfByte_packetWords lba hj
  simp only [hbyte _ (show 0 < 12 by decide), hbyte _ (show 2 < 12 by decide),
    hbyte _ (show 3 < 12 by decide), hbyte _ (show 4 < 12 by decide),
    hbyte _ (show 5 < 12 by decide), hbyte _ (show 6 < 12 by decide),
    hbyte _ (show 7 < 12 by decide), hbyte _ (show 8 < 12 by decide),
    hbyte _ (show 9 < 12 by decide)]
  have hcheck : (readPacket lba).getD 0 0 = 0xA8 ∧
      (readPacket lba).getD 6 0 ++ (readPacket lba).getD 7 0 ++ (readPacket lba).getD 8 0 ++
        (readPacket lba).getD 9 0 = (1 : Word) ∧ s.lba2 ++ s.lba1 = (2048 : Half) :=
    ⟨rfl, (by decide : ((0 : U8) ++ (0 : U8) ++ (0 : U8) ++ (1 : U8) : Word) = 1), hlimit⟩
  rw [if_pos hcheck]
  exact congrArg (fun a => match d.sector a with
    | some block => d.enter s (.data (halves block 1024))
    | none => d.enter s .aborted) (address_bytes lba)

/-! ## A block -/

def BlockResult (d : Drive) (lba at0 : U32) (m : Mem) (r : Bool × World State) : Prop :=
  match d.sector lba with
  | some block => r.1 = true ∧ r.2.mem = store m at0 2048 block ∧ Settled r.2.dev
  | none => r.1 = false ∧ r.2.mem = m ∧ Settled r.2.dev

theorem store_halves (m : Mem) (a : U32) (block : Nat → U8) (n : Nat) :
    store m a (2 * n) (halfByte (halves block n)) = store m a (2 * n) block :=
  store_congr fun _ hj => halfByte_halves hj

theorem selected_eq (hatt : Attached d dev) :
    ataIoWait d.bus dev.ctrlBase (ataSelectDrive d.bus dev.ioBase dev.slave s) =
      { s with selected := true, busy := s.busy - 4 } := by
  rw [hatt.io, hatt.ctrl, select_eq, ioWait_eq, hatt.slave, beq_self_eq_true]

theorem status_idle (h : s.phase = .idle) : s.status &&& (ataSrErr ||| ataSrDf) = 0 := by
  rw [State.status, h]
  split
  · split <;> rfl
  · rfl

theorem data_port (d : Drive) : d.io + ataRegData = d.io := BitVec.add_zero _

theorem asked_eq (hpunctual : ∀ k, d.delay k < ataTimeout) (hsel : s.selected = true)
    (hbusy : s.busy = 0) (hfree : s.phase = .idle ∨ s.phase = .aborted) :
    ataWaitDrq d.bus d.io ataTimeout
      (d.bus.outb (d.bus.outb (d.bus.outb (d.bus.outb s (d.io + ataRegFeatures) 0)
        (d.io + ataRegLba1) ((atapiSectorSize &&& 0xFF).setWidth 8))
        (d.io + ataRegLba2) (((atapiSectorSize >>> 8) &&& 0xFF).setWidth 8))
        (d.io + ataRegCommand) ataCmdPacket) =
      (true, { s with lba1 := 0, lba2 := 8, phase := .packet [], busy := 0,
                      turns := s.turns + 1 }) := by
  have h1 : d.bus.outb s (d.io + ataRegFeatures) 0 = s := outb_other (by decide)
  have h2 : d.bus.outb s (d.io + ataRegLba1) ((atapiSectorSize &&& 0xFF).setWidth 8) =
      { s with lba1 := 0 } := outb_lba1 (.inr hbusy)
  have h3 : d.bus.outb { s with lba1 := 0 } (d.io + ataRegLba2)
      (((atapiSectorSize >>> 8) &&& 0xFF).setWidth 8) = { s with lba1 := 0, lba2 := 8 } :=
    outb_lba2 (.inr hbusy)
  have h4 : d.bus.outb { s with lba1 := 0, lba2 := 8 } (d.io + ataRegCommand) ataCmdPacket =
      d.enter { s with lba1 := 0, lba2 := 8 } (.packet []) := by
    have hcommand := @command_free d { s with lba1 := 0, lba2 := 8 } hfree ataCmdPacket
    have hout := @outb_command d { s with lba1 := 0, lba2 := 8 } ataCmdPacket hsel hbusy
    exact hout.trans (hcommand.trans (if_pos rfl))
  rw [h1, h2, h3, h4]
  exact drq_enter hpunctual hsel (drq_packet [])

/-- The packet is answered with the sector, or refused when there is none. -/
theorem answered_eq (hpunctual : ∀ k, d.delay k < ataTimeout) (hsel : s.selected = true)
    (hbusy : s.busy = 0) (hphase : s.phase = .packet []) (h1 : s.lba1 = 0) (h2 : s.lba2 = 8)
    (lba : U32) :
    ataWaitDrq d.bus d.io ataTimeout
        (writeWords d.bus (d.io + ataRegData) (packetWords lba) s) =
      match d.sector lba with
      | some block => (true, { s with phase := .data (halves block 1024), busy := 0,
                                      turns := s.turns + 1 })
      | none => (false, { s with phase := .aborted, busy := 0, turns := s.turns + 1 }) := by
  have hwrite := @writeWords_packet d s [] (packetWords lba) rfl (List.cons_ne_nil _ _) hsel
    hbusy hphase
  rw [List.nil_append, List.nil_append, execute_packet (by rw [h1, h2]; rfl)] at hwrite
  rw [data_port, hwrite]
  cases d.sector lba with
  | some block => exact drq_enter hpunctual hsel (drq_data _)
  | none => exact drq_enter hpunctual hsel drq_aborted

theorem readWords_halves {f : Nat → U8} {k : Nat} (hk : 0 < k) (hsel : s.selected = true)
    (hbusy : s.busy = 0) (hphase : s.phase = .data (halves f k)) :
    readWords d.bus (d.io + ataRegData) k s = (halves f k, d.enter s .idle) := by
  have hne : halves f k ≠ [] := by
    rwa [← List.length_pos_iff, length_halves]
  have hread := readWords_data (d := d) hne hsel hbusy hphase
  rwa [length_halves, ← data_port] at hread

theorem dataLoop_drive {block : Nat → U8} {k : Nat} (hk : 0 < k) (hfit : 2 * k ≤ 2 ^ 32)
    (hsel : s.selected = true) (hbusy : s.busy = 0) (hphase : s.phase = .data (halves block k))
    (dst n : U32) (m : Mem) :
    dataLoop d.bus d.io dst n 0 k ⟨s, m⟩ =
      ⟨d.enter s .idle, store m (dst + n * atapiSectorSize) (2 * k) block⟩ := by
  have h := dataLoop_eq d.bus d.io dst n k 0 ⟨s, m⟩ hfit
  rw [readWords_halves hk hsel hbusy hphase, Nat.zero_mul, BitVec.add_zero] at h
  exact h.trans (congrArg (World.mk _) (store_halves _ _ _ _))

theorem readBlock_drive (hatt : Attached d dev) (hs : Settled s) (lba dst block : U32) (m : Mem) :
    BlockResult d (lba + block) (dst + block * atapiSectorSize) m
      (atapiReadBlock d.bus dev lba dst block ⟨s, m⟩) := by
  have hbusy : s.busy - 4 < ataTimeout := Nat.lt_of_le_of_lt (Nat.sub_le _ _) hs.busy
  rw [atapiReadBlock]
  dsimp only
  rw [selected_eq hatt, hatt.io, notBusy_eq rfl hbusy, if_neg Bool.noConfusion,
    @asked_eq d { s with selected := true, busy := 0 } hatt.punctual rfl rfl hs.free,
    if_neg Bool.noConfusion,
    answered_eq hatt.punctual rfl rfl rfl rfl rfl, BlockResult]
  cases d.sector (lba + block) with
  | none => exact ⟨rfl, rfl, .inr rfl, Nat.zero_lt_succ _⟩
  | some sector =>
      dsimp only
      rw [if_neg Bool.noConfusion, dataLoop_drive (by decide) (by norm_num) rfl rfl rfl,
        notBusy_eq rfl (hatt.punctual _),
        if_neg Bool.noConfusion, show d.io + ataRegStatus = d.io + 7 from rfl, inb_status]
      exact ⟨decide_eq_true (status_idle rfl), rfl, .inl rfl, Nat.zero_lt_succ _⟩

/-! ## A read -/

/-- A read of sector after sector that stops at the first one there is not. -/
def discSectors (sector : U32 → Option Sector) (lba dst : U32) : Nat → Nat → Mem → Bool × Mem
  | _, 0, m => (true, m)
  | k, n + 1, m =>
    match sector (lba + BitVec.ofNat 32 k) with
    | none => (false, m)
    | some block =>
      discSectors sector lba dst (k + 1) n (store m (dst + BitVec.ofNat 32 k * 2048) 2048 block)

/-- The driver's result is that of the pure read, and the drive can take the next command. -/
structure Answered (r : Bool × World State) (a : Bool × Mem) : Prop where
  result : r.1 = a.1
  mem : r.2.mem = a.2
  settled : Settled r.2.dev

theorem readBlocksLoop_drive (hatt : Attached d dev) (lba dst : U32) (n k : Nat) (hs : Settled s)
    (m : Mem) : Answered (readBlocksLoop d.bus dev lba dst k n ⟨s, m⟩)
      (discSectors d.sector lba dst k n m) := by
  induction n generalizing k s m with
  | zero => exact ⟨rfl, rfl, hs⟩
  | succ n ih =>
      have hblock := readBlock_drive hatt hs lba dst (BitVec.ofNat 32 k) m
      rw [readBlocksLoop, discSectors]
      rw [BlockResult] at hblock
      cases hsector : d.sector (lba + BitVec.ofNat 32 k) with
      | none =>
          rw [hsector] at hblock
          obtain ⟨hfalse, hmem, hsettled⟩ := hblock
          dsimp only
          rw [if_pos hfalse]
          exact ⟨hfalse, hmem, hsettled⟩
      | some block =>
          rw [hsector] at hblock
          obtain ⟨htrue, hmem, hsettled⟩ := hblock
          dsimp only
          rw [if_neg (by rw [htrue]; exact Bool.noConfusion)]
          have h := ih (k + 1) hsettled (atapiReadBlock d.bus dev lba dst (BitVec.ofNat 32 k)
            ⟨s, m⟩).2.mem
          rw [hmem] at h
          exact hmem ▸ h

/-! ## The search for the drive -/

/-- Nothing has been asked of the drive. -/
structure Ready (s : State) : Prop where
  idle : s.phase = .idle
  free : s.busy = 0

theorem Ready.settled (h : Ready s) : Settled s := ⟨.inl h.idle, by rw [h.free]; decide⟩

/-- The other position of the drive's channel, or a position of another channel. -/
def Elsewhere (d : Drive) (c : AtapiDevice) : Prop :=
  c.ioBase = d.io ∧ c.ctrlBase = d.ctrl ∧ d.slave ≠ decide (c.slave ≠ 0) ∨
    d.Away c.ctrlBase ∧ ∀ k : U16, k.toNat < 8 → d.Away (c.ioBase + k)

theorem cleared_eq (h : s.selected = false ∨ s.busy = 0) :
    d.bus.outb (d.bus.outb (d.bus.outb (d.bus.outb s (d.io + ataRegSeccount0) 0)
      (d.io + ataRegLba0) 0) (d.io + ataRegLba1) 0) (d.io + ataRegLba2) 0 =
      { s with lba1 := 0, lba2 := 0 } := by
  have h2 : d.bus.outb s (d.io + ataRegSeccount0) 0 = s := outb_other (by decide)
  have h3 : d.bus.outb s (d.io + ataRegLba0) 0 = s := outb_other (by decide)
  have h4 : d.bus.outb s (d.io + ataRegLba1) 0 = { s with lba1 := 0 } := outb_lba1 h
  have h5 : d.bus.outb { s with lba1 := 0 } (d.io + ataRegLba2) 0 =
      { s with lba1 := 0, lba2 := 0 } := outb_lba2 h
  rw [h2, h3, h4, h5]

/-- The position of the channel that the drive is not on reads zero. -/
theorem identify_other {c : AtapiDevice} (hio : c.ioBase = d.io) (hctrl : c.ctrlBase = d.ctrl)
    (hslave : d.slave ≠ decide (c.slave ≠ 0)) (hs : Ready s) :
    ∃ s', atapiIdentify d.bus c.ioBase c.ctrlBase c.slave s = (false, s') ∧ Ready s' := by
  have hsel : (decide (c.slave ≠ 0) == d.slave) = false := beq_false_of_ne (Ne.symm hslave)
  have hidentify : d.bus.outb { s with selected := false, busy := s.busy - 4, lba1 := 0, lba2 := 0 }
      (d.io + ataRegCommand) ataCmdIdentify =
      { s with selected := false, busy := s.busy - 4, lba1 := 0, lba2 := 0 } :=
    outb_unselected rfl
  have hstatus (t : State) (ht : t.selected = false) :
      d.bus.inb t (d.io + ataRegStatus) = (0, { t with busy := t.busy - 1 }) := by
    refine inb_status.trans (Prod.ext ?_ rfl)
    exact if_neg (by rw [ht]; exact Bool.noConfusion)
  rw [atapiIdentify, hio, hctrl]
  dsimp only
  rw [select_eq, hsel, ioWait_eq, cleared_eq (.inl rfl), hidentify, hstatus _ rfl, if_pos rfl]
  refine ⟨_, rfl, hs.idle, ?_⟩
  change s.busy - 4 - 1 = 0
  rw [hs.free]

/-- Ports that read the same everywhere are not taken for a drive, as the two bytes of its signature
are different. -/
theorem identify_away {c : AtapiDevice} (hctrl : d.Away c.ctrlBase)
    (haway : ∀ k : U16, k.toNat < 8 → d.Away (c.ioBase + k)) :
    atapiIdentify d.bus c.ioBase c.ctrlBase c.slave s = (false, s) := by
  have hin (k : U16) (hk : k.toNat < 8) : d.bus.inb s (c.ioBase + k) = (d.floating, s) :=
    inb_away (haway k hk)
  have hout (k : U16) (hk : k.toNat < 8) (v : U8) : d.bus.outb s (c.ioBase + k) v = s :=
    outb_away (haway k hk)
  have hwait : ataIoWait d.bus c.ctrlBase s = s := by
    have h0 : c.ctrlBase + 0 = c.ctrlBase := BitVec.add_zero _
    simp only [ataIoWait, h0, inb_away hctrl]
  have hselect : ataSelectDrive d.bus c.ioBase c.slave s = s := hout 6 (by decide) _
  have hpoll : (ataWaitNotBusy d.bus c.ioBase ataTimeout s).2 = s :=
    poll_const (hin 7 (by decide))
  rw [atapiIdentify]
  dsimp only
  rw [hselect, hwait, hout _ (by decide), hout _ (by decide), hout _ (by decide),
    hout _ (by decide), hout _ (by decide), hin _ (by decide)]
  dsimp only
  split
  · rfl
  split
  · rename_i hready
    exact Prod.ext hready hpoll
  rw [hpoll, hin _ (by decide)]
  dsimp only
  rw [hin _ (by decide), if_pos]
  by_contra hsig
  have hsig := not_or.mp hsig
  have heq : atapiSigLba1 = atapiSigLba2 :=
    (not_not.mp hsig.1).symm.trans (not_not.mp hsig.2)
  exact absurd heq (by decide)

/-- Where no drive answers the driver finds none, and the drive that answers elsewhere is not
disturbed. -/
theorem identify_elsewhere {c : AtapiDevice} (hc : Elsewhere d c) (hs : Ready s) :
    ∃ s', atapiIdentify d.bus c.ioBase c.ctrlBase c.slave s = (false, s') ∧ Ready s' := by
  rcases hc with ⟨hio, hctrl, hslave⟩ | ⟨hctrl, haway⟩
  · exact identify_other hio hctrl hslave hs
  · exact ⟨s, identify_away hctrl haway, hs⟩

theorem identifyPacket_command (hsel : s.selected = true) (hbusy : s.busy = 0)
    (haborted : s.phase = .aborted) :
    d.bus.outb s (d.io + ataRegCommand) ataCmdIdentifyPacket =
      d.enter s (.data (halves d.identity 256)) := by
  refine (outb_command hsel hbusy).trans ((command_free (.inr haborted) _).trans ?_)
  rw [if_neg (by decide)]
  exact if_pos rfl

theorem status_aborted (hsel : s.selected = true) (haborted : s.phase = .aborted) : s.status ≠ 0 := by
  rw [State.status, if_pos hsel, haborted]
  split
  · exact (by decide : (0x41 : U8) ≠ 0)
  · exact (by decide : (0x80 : U8) ≠ 0)

/-- A drive that has been asked to identify itself, and is busy with it. -/
structure Identified (s : State) : Prop where
  selected : s.selected = true
  aborted : s.phase = .aborted
  lba1 : s.lba1 = atapiSigLba1
  lba2 : s.lba2 = atapiSigLba2
  busy : s.busy < ataTimeout

theorem identify_command (hpunctual : ∀ k, d.delay k < ataTimeout) (hsel : s.selected = true)
    (hbusy : s.busy = 0) (hidle : s.phase = .idle) :
    Identified (d.bus.outb (d.bus.outb (d.bus.outb (d.bus.outb (d.bus.outb s
      (d.io + ataRegSeccount0) 0) (d.io + ataRegLba0) 0) (d.io + ataRegLba1) 0)
      (d.io + ataRegLba2) 0) (d.io + ataRegCommand) ataCmdIdentify) := by
  have hcommand := @command_free d { s with lba1 := 0, lba2 := 0 } (.inl hidle) ataCmdIdentify
  have hout := @outb_command d { s with lba1 := 0, lba2 := 0 } ataCmdIdentify hsel hbusy
  rw [cleared_eq (.inr hbusy)]
  rw [if_neg (by decide), if_neg (by decide), if_pos (by rfl)] at hcommand
  have hentered := hout.trans hcommand
  rw [show d.io + ataRegCommand = d.io + 7 from rfl, hentered]
  exact ⟨hsel, rfl, rfl, rfl, hpunctual _⟩

theorem identified_reads (hs : Identified s) :
    d.bus.inb s (d.io + ataRegStatus) = (s.status, { s with busy := s.busy - 1 }) ∧
    ataWaitNotBusy d.bus d.io ataTimeout { s with busy := s.busy - 1 } =
      (true, { s with busy := 0 }) ∧
    d.bus.inb { s with busy := 0 } (d.io + ataRegLba1) = (atapiSigLba1, { s with busy := 0 }) ∧
    d.bus.inb { s with busy := 0 } (d.io + ataRegLba2) = (atapiSigLba2, { s with busy := 0 }) := by
  refine ⟨inb_status, notBusy_eq hs.selected (Nat.lt_of_le_of_lt (Nat.sub_le _ _) hs.busy), ?_, ?_⟩
  · rw [← hs.lba1]
    exact inb_lba1 hs.selected
  · rw [← hs.lba2]
    exact inb_lba2 hs.selected

/-- The drive answers IDENTIFY with its signature and the packet variant with its data. -/
theorem identify_drive (hatt : Attached d dev) (hs : Ready s) :
    ∃ s', atapiIdentify d.bus dev.ioBase dev.ctrlBase dev.slave s = (true, s') ∧ Settled s' := by
  rw [atapiIdentify]
  dsimp only
  rw [selected_eq hatt, hatt.io]
  have hidentified := @identify_command d { s with selected := true, busy := s.busy - 4 }
    hatt.punctual rfl (by rw [hs.free]) hs.idle
  generalize d.bus.outb _ (d.io + ataRegCommand) ataCmdIdentify = u at hidentified ⊢
  obtain ⟨hstatus, hwait, hlba1, hlba2⟩ := identified_reads (d := d) hidentified
  rw [hstatus, if_neg (status_aborted hidentified.selected hidentified.aborted), hwait,
    if_neg Bool.noConfusion, hlba1, hlba2, if_neg (by simp),
    @identifyPacket_command d { u with busy := 0 } hidentified.selected rfl hidentified.aborted,
    @drq_enter d { u with busy := 0 } _ _ hatt.punctual hidentified.selected (drq_data _),
    if_neg Bool.noConfusion]
  have hread := @readWords_halves d { u with phase := .data (halves d.identity 256), busy := 0,
                                             turns := u.turns + 1 } d.identity 256 (by decide)
    hidentified.selected rfl rfl
  exact ⟨_, congrArg (fun r => (true, r.2)) hread, .inl rfl, hatt.punctual _⟩

/-- Two positions are on one channel, or no port of the one is a port of the other. -/
theorem positions_apart : ∀ dev ∈ candidates, ∀ c ∈ candidates, c ≠ dev →
    (c.ioBase = dev.ioBase ∧ c.ctrlBase = dev.ctrlBase ∧
      decide (dev.slave ≠ 0) ≠ decide (c.slave ≠ 0)) ∨
    (c.ctrlBase ≠ dev.ctrlBase ∧ 8 ≤ (c.ctrlBase - dev.ioBase).toNat) ∧
      ∀ k : Fin 8, c.ioBase + BitVec.ofNat 16 k ≠ dev.ctrlBase ∧
        8 ≤ (c.ioBase + BitVec.ofNat 16 k - dev.ioBase).toNat := by
  decide

theorem elsewhere_of_ne {c : AtapiDevice} (hatt : Attached d dev) (hdev : dev ∈ candidates)
    (hc : c ∈ candidates) (hne : c ≠ dev) : Elsewhere d c := by
  have happart := positions_apart dev hdev c hc hne
  rw [hatt.io, hatt.ctrl, ← hatt.slave] at happart
  refine happart.imp_right fun h => ⟨h.1, fun k hk => ?_⟩
  have hport := h.2 ⟨k.toNat, hk⟩
  rwa [BitVec.ofNat_toNat, BitVec.setWidth_eq] at hport

def discTable (d : Drive) (dev : AtapiDevice) : BlockDevices AtapiDevice State :=
  [⟨0, cstr "cd0", atapiSectorSize, atapiReadBlocks d.bus, some dev⟩]

/-- `storage_init` leaves one device, and the drive ready for its commands. -/
theorem storageInit_drive (hatt : Attached d dev) (hdev : dev ∈ candidates) (hs : Ready s) :
    ∃ s', storageInit d.bus s = (discTable d dev, s') ∧ Settled s' := by
  suffices hloop : ∀ cs, dev ∈ cs → (∀ c ∈ cs, c ∈ candidates) → ∀ s, Ready s →
      ∃ s', probeLoop d.bus [] cs s = ((true, discTable d dev), s') ∧ Settled s' by
    obtain ⟨s', hprobe, hsettled⟩ := hloop candidates hdev (fun _ hc => hc) s hs
    refine ⟨s', ?_, hsettled⟩
    rw [storageInit, atapiProbeAndRegister, hprobe]
  intro cs
  induction cs with
  | nil => exact fun hmem => absurd hmem List.not_mem_nil
  | cons c cs ih =>
      intro hmem hsub s hs
      rw [probeLoop]
      by_cases heq : c = dev
      · subst heq
        obtain ⟨s', hidentify, hsettled⟩ := identify_drive hatt hs
        rw [hidentify]
        exact ⟨s', rfl, hsettled⟩
      · obtain ⟨s', hidentify, hready⟩ := identify_elsewhere
          (elsewhere_of_ne hatt hdev (hsub c List.mem_cons_self) heq) hs
        rw [hidentify]
        exact ih ((List.mem_cons.mp hmem).resolve_left (Ne.symm heq))
          (fun c hc => hsub c (List.mem_cons_of_mem _ hc)) s' hready

/-! ## Reads through the device table -/

structure BlockRequest where
  id : Int
  lba : U32
  count : U32
  out : U32

def serveReads {σ : Type} (devices : BlockDevices AtapiDevice σ) :
    List BlockRequest → World σ → List Bool × World σ
  | [], w => ([], w)
  | q :: qs, w =>
    let r := storageRead devices q.id q.lba q.count q.out w
    let rest := serveReads devices qs r.2
    (r.1 :: rest.1, rest.2)

/-- What the calls do on a machine that the file system is modelled on. -/
def discReads (mach : Machine) : List BlockRequest → Mem → List Bool × Mem
  | [], m => ([], m)
  | q :: qs, m =>
    let r := if q.out = 0 ∨ q.count = 0 then (false, m)
      else discSectors (mach.storageRead q.id) q.lba q.out 0 q.count.toNat m
    let rest := discReads mach qs r.2
    (r.1 :: rest.1, rest.2)

/-- The machine's only disc is the one in the drive; past the end of a sector a read says nothing. -/
structure Holds (mach : Machine) (d : Drive) : Prop where
  disc : ∀ lba, Option.Rel (fun f g => ∀ i < 2048, f i = g i) (d.sector lba) (mach.storageRead 0 lba)
  other : ∀ id ≠ 0, ∀ lba, mach.storageRead id lba = none

theorem discSectors_congr {read read' : U32 → Option Sector}
    (h : ∀ lba, Option.Rel (fun f g => ∀ i < 2048, f i = g i) (read lba) (read' lba))
    (lba dst : U32) (k n : Nat) (m : Mem) :
    discSectors read lba dst k n m = discSectors read' lba dst k n m := by
  induction n generalizing k m with
  | zero => rfl
  | succ n ih =>
      rw [discSectors, discSectors]
      have hsector := h (lba + BitVec.ofNat 32 k)
      generalize read (lba + BitVec.ofNat 32 k) = a at hsector
      generalize read' (lba + BitVec.ofNat 32 k) = b at hsector
      cases hsector with
      | none => rfl
      | some hbytes =>
          dsimp only
          rw [store_congr hbytes]
          exact ih _ _

theorem discSectors_none {read : U32 → Option Sector} (h : ∀ lba, read lba = none)
    (lba dst : U32) {n : Nat} (hn : n ≠ 0) (m : Mem) :
    discSectors read lba dst 0 n m = (false, m) := by
  obtain ⟨n, rfl⟩ := Nat.exists_eq_succ_of_ne_zero hn
  rw [discSectors, h]

theorem storageGetDevice_single {α σ : Type} (x : BlockDevice α σ) (id : Int) :
    storageGetDevice [x] id = if id = 0 then some x else none := by
  rw [storageGetDevice]
  by_cases hid : id = 0
  · rw [hid, if_pos rfl, if_neg (by simp)]
    rfl
  · rw [if_neg hid, if_pos]
    rw [List.length_singleton]
    omega

theorem storageRead_drive {mach : Machine} (hatt : Attached d dev) (hdisc : Holds mach d)
    (hs : Settled s) (q : BlockRequest) (m : Mem) :
    Answered (storageRead (discTable d dev) q.id q.lba q.count q.out ⟨s, m⟩)
      (if q.out = 0 ∨ q.count = 0 then (false, m)
        else discSectors (mach.storageRead q.id) q.lba q.out 0 q.count.toNat m) := by
  rw [storageRead, discTable, storageGetDevice_single]
  by_cases hargs : q.out = 0 ∨ q.count = 0
  · rw [if_pos hargs]
    by_cases hid : q.id = 0
    · rw [if_pos hid]
      dsimp only
      rw [if_pos hargs]
      exact ⟨rfl, rfl, hs⟩
    · rw [if_neg hid]
      exact ⟨rfl, rfl, hs⟩
  rw [if_neg hargs]
  by_cases hid : q.id = 0
  · rw [if_pos hid, hid]
    dsimp only
    rw [if_neg hargs, atapiReadBlocks]
    rw [if_neg hargs, ← discSectors_congr hdisc.disc]
    exact readBlocksLoop_drive hatt q.lba q.out q.count.toNat 0 hs m
  · have hcount : q.count.toNat ≠ 0 := fun hzero => hargs (.inr (BitVec.eq_of_toNat_eq hzero))
    rw [if_neg hid, discSectors_none (hdisc.other q.id hid) _ _ hcount]
    exact ⟨rfl, rfl, hs⟩

theorem serveReads_drive {mach : Machine} (hatt : Attached d dev) (hdisc : Holds mach d)
    (hs : Settled s) (qs : List BlockRequest) (m : Mem) :
    (serveReads (discTable d dev) qs ⟨s, m⟩).1 = (discReads mach qs m).1 ∧
      (serveReads (discTable d dev) qs ⟨s, m⟩).2.mem = (discReads mach qs m).2 := by
  induction qs generalizing s m with
  | nil => exact ⟨rfl, rfl⟩
  | cons q qs ih =>
      have hcall := storageRead_drive hatt hdisc hs q m
      rw [serveReads, discReads]
      generalize storageRead (discTable d dev) q.id q.lba q.count q.out ⟨s, m⟩ = r at hcall ⊢
      obtain ⟨b, s', m'⟩ := r
      obtain ⟨hresult, hmem, hsettled⟩ := hcall
      dsimp only at hresult hmem hsettled ⊢
      rw [← hresult, ← hmem]
      exact ⟨congrArg (b :: ·) (ih hsettled m').1, (ih hsettled m').2⟩

/-- A drive at any of the four positions is found by `storage_init`, and every sequence of reads
through the table answers and fills memory as `storage_read` does for the file system. -/
theorem reads_served (d : Drive) (dev : AtapiDevice) (mach : Machine) (hdev : dev ∈ candidates)
    (hatt : Attached d dev) (hdisc : Holds mach d) (s : State) (hs : Ready s)
    (qs : List BlockRequest) (m : Mem) :
    (storageFindDevice (storageInit d.bus s).1 (cstr "cd0")).map BlockDevice.id = some 0 ∧
    (serveReads (storageInit d.bus s).1 qs ⟨(storageInit d.bus s).2, m⟩).1 =
      (discReads mach qs m).1 ∧
    (serveReads (storageInit d.bus s).1 qs ⟨(storageInit d.bus s).2, m⟩).2.mem =
      (discReads mach qs m).2 := by
  obtain ⟨s', hinit, hsettled⟩ := storageInit_drive hatt hdev hs
  rw [hinit]
  exact ⟨rfl, serveReads_drive hatt hdisc hsettled qs m⟩

def demoDrive : Drive where
  io := ataSecondaryIo
  ctrl := ataSecondaryCtrl
  slave := true
  floating := 0xFF
  identity := fun _ => 0
  sector := fun lba => if lba.toNat < 2 then some fun i => BitVec.ofNat 8 (lba.toNat + i) else none
  delay := fun k => k % 7 + 3
  ctrl_outside := by decide

def demoDisc : Machine where
  kernelEnd := 0x00160000
  userStacks := 0x00150000
  ram := fun _ => 0
  outside := fun _ => 0
  storageRead := fun id lba => if id = 0 then demoDrive.sector lba else none
  stacks_above := by decide
  stacks_below := by decide

def demoReads : List BlockRequest :=
  [⟨0, 0, 2, 0x9000⟩, ⟨0, 1, 2, 0xC000⟩, ⟨1, 0, 1, 0x9000⟩]

theorem reads_served_demo :
    (serveReads (storageInit demoDrive.bus ⟨false, 0, 0, .idle, 0, 0⟩).1 demoReads
        ⟨(storageInit demoDrive.bus ⟨false, 0, 0, .idle, 0, 0⟩).2, fun _ => 0⟩).1 =
      [true, false, false] ∧
    (serveReads (storageInit demoDrive.bus ⟨false, 0, 0, .idle, 0, 0⟩).1 demoReads
        ⟨(storageInit demoDrive.bus ⟨false, 0, 0, .idle, 0, 0⟩).2, fun _ => 0⟩).2.mem 0x9805 =
      6 := by
  have hatt : Attached demoDrive ⟨ataSecondaryIo, ataSecondaryCtrl, 1⟩ :=
    ⟨rfl, rfl, rfl, fun k => Nat.lt_of_lt_of_le (Nat.add_lt_add_right (Nat.mod_lt k (by decide)) 3)
      (by decide)⟩
  have hdisc : Holds demoDisc demoDrive := by
    refine ⟨fun lba => ?_, fun id hid _ => if_neg hid⟩
    change Option.Rel _ (demoDrive.sector lba) (demoDrive.sector lba)
    cases demoDrive.sector lba with
    | none => exact .none
    | some block => exact .some fun _ _ => rfl
  obtain ⟨_, hanswers, hmem⟩ := reads_served demoDrive ⟨ataSecondaryIo, ataSecondaryCtrl, 1⟩
    demoDisc (by decide) hatt hdisc ⟨false, 0, 0, .idle, 0, 0⟩ ⟨rfl, rfl⟩ demoReads fun _ => 0
  exact ⟨hanswers.trans (by decide +kernel), (congrFun hmem _).trans (by decide +kernel)⟩

end SlopOS.Proofs.DriveReads
