import SlopOS.Kernel.Atapi
import SlopOS.Support.PacketDrive
/-!
# What a CD read transfers

For any device behind the ports: a read asks for one block after another, and the bytes it has
stored are those of the blocks it got, whatever the device answers and wherever it stops.
-/

namespace SlopOS.Proofs.BlockTransfers

open SlopOS.Kernel SlopOS.Support.PortBus SlopOS.Support.ByteMem SlopOS.Support.PacketDrive

variable {σ : Type} {bus : Bus σ}

theorem low_byte (w : U16) : ((w &&& 0xFF).setWidth 8 : U8) = w.extractLsb' 0 8 :=
  field_of_shift (w := 8) (by decide) w 0

theorem high_byte (w : U16) : (((w >>> 8) &&& 0xFF).setWidth 8 : U8) = w.extractLsb' 8 8 :=
  field_of_shift (w := 8) (by decide) w 8

theorem dataLoop_eq (bus : Bus σ) (io : U16) (dst block : U32) (n i : Nat) (w : World σ)
    (hn : 2 * n ≤ 2 ^ 32) :
    dataLoop bus io dst block i n w =
      ⟨(readWords bus (io + ataRegData) n w.dev).2,
        store w.mem (dst + (block * atapiSectorSize + BitVec.ofNat 32 (i * 2))) (2 * n)
          (halfByte (readWords bus (io + ataRegData) n w.dev).1)⟩ := by
  induction n generalizing i w with
  | zero => rw [dataLoop, Nat.mul_zero, store_zero, readWords]
  | succ n ih =>
      rw [dataLoop]
      rw [ih (i + 1) _ (by omega), readWords]
      refine congrArg (World.mk _) ?_
      have hlen : (readWords bus (io + ataRegData) n
          (bus.inw w.dev (io + ataRegData)).2).1.length = n :=
        length_readWords _ n
      have h := store_half w.mem (dst + (block * atapiSectorSize + BitVec.ofNat 32 (i * 2)))
        (bus.inw w.dev (io + ataRegData)).1
        (readWords bus (io + ataRegData) n (bus.inw w.dev (io + ataRegData)).2).1
        (by rw [hlen]; omega)
      rw [List.length_cons, hlen] at h
      rw [low_byte, high_byte, ← h]
      refine congrArg (fun a => store _ a _ _) ?_
      rw [show (i + 1) * 2 = i * 2 + 2 by omega, BitVec.ofNat_add, ← BitVec.add_assoc,
        ← BitVec.add_assoc, ← BitVec.add_assoc]
      rfl

/-! ## One block -/

section Waits

variable {io ctrl p : U16} {slave : U8} {n : Nat} {s : σ × List Access}

end Waits

variable {dev : AtapiDevice} {lba dst block : U32} {w : World (σ × List Access)}

def moves (dev : AtapiDevice) (s : σ × List Access) : List Access :=
  transfers (dev.ioBase + ataRegData) s

def asking (dev : AtapiDevice) (lba : U32) : List Access :=
  (packetWords lba).map (.outw (dev.ioBase + ataRegData))

def answering (dev : AtapiDevice) (ws : List U16) : List Access :=
  ws.map (.inw (dev.ioBase + ataRegData))

/-- The accesses of a read of which these blocks were answered. -/
def exchange (dev : AtapiDevice) : U32 → List (List U16) → List Access
  | _, [] => []
  | lba, ws :: answers => asking dev lba ++ answering dev ws ++ exchange dev (lba + 1) answers

theorem store_blocks (m : Mem) (a : U32) (ws : List U16) (rest : List (List U16))
    (hws : ws.length = 1024) (hfit : 2048 * (rest.length + 1) ≤ 2 ^ 32) :
    store (store m a 2048 (halfByte ws)) (a + 2048) (2048 * rest.length)
      (halfByte rest.flatten) =
      store m a (2048 * (ws :: rest).length) (halfByte (ws :: rest).flatten) := by
  have h := store_store_next m a 2048 (2048 * rest.length) (halfByte ws) (halfByte rest.flatten)
    (by omega)
  refine h.trans ?_
  rw [List.length_cons, Nat.mul_succ, Nat.add_comm]
  refine store_congr fun j hj => ?_
  rw [List.flatten_cons, halfByte, halfByte, halfByte]
  by_cases hlow : j < 2048
  · rw [if_pos hlow, List.getD_append _ _ _ _ (by omega)]
  · rw [if_neg hlow, List.getD_append_right _ _ _ _ (by omega), hws,
      show (j - 2048) / 2 = j / 2 - 1024 by omega, show (j - 2048) % 2 = j % 2 by omega]

/-- A read got `answers`; when it failed, the next block may have been asked for in vain. -/
structure ReadOutcome (dev : AtapiDevice) (lba at0 : U32) (n : Nat) (w : World (σ × List Access))
    (r : Bool × World (σ × List Access)) (answers : List (List U16)) : Prop where
  blocks : ∀ ws ∈ answers, ws.length = 1024
  length_le : answers.length ≤ n
  stored : r.2.mem = store w.mem at0 (2048 * answers.length) (halfByte answers.flatten)
  moved : moves dev r.2.dev = moves dev w.dev ++ exchange dev lba answers ∨
    r.1 = false ∧ moves dev r.2.dev = moves dev w.dev ++
      (exchange dev lba answers ++ asking dev (lba + BitVec.ofNat 32 answers.length))
  complete : r.1 = true → answers.length = n

theorem ReadOutcome.none {s : σ × List Access} {at0 : U32} {n : Nat}
    (h : moves dev s = moves dev w.dev) (r : Bool)
    (hr : r = true → 0 = n) : ReadOutcome dev lba at0 n w (r, ⟨s, w.mem⟩) [] :=
  ⟨by simp, Nat.zero_le _, (store_zero _ _ _).symm, .inl (by simpa [exchange] using h), hr⟩

theorem next_block (a : U32) (k : Nat) : a + BitVec.ofNat 32 (k + 1) = a + BitVec.ofNat 32 k + 1 := by
  rw [BitVec.ofNat_add, ← BitVec.add_assoc]
  rfl

theorem ReadOutcome.cons {s : σ × List Access} {at0 : U32} {n : Nat} {ws : List U16}
    {r : Bool × World (σ × List Access)} {answers : List (List U16)} (hlen : ws.length = 1024)
    (h : moves dev s = moves dev w.dev ++ (asking dev lba ++ answering dev ws))
    (hfit : 2048 * (n + 1) ≤ 2 ^ 32)
    (hout : ReadOutcome dev (lba + 1) (at0 + 2048) n ⟨s, store w.mem at0 2048 (halfByte ws)⟩ r
      answers) : ReadOutcome dev lba at0 (n + 1) w r (ws :: answers) where
  blocks := List.forall_mem_cons.mpr ⟨hlen, hout.blocks⟩
  length_le := Nat.succ_le_succ hout.length_le
  stored := by
    have hle := hout.length_le
    rw [hout.stored, store_blocks _ _ _ _ hlen (by omega)]
  moved := by
    have hmoved := hout.moved
    dsimp only at hmoved
    rw [h] at hmoved
    refine hmoved.imp (fun hm => ?_) (fun hm => ⟨hm.1, ?_⟩)
    · rw [hm, exchange, List.append_assoc]
    · have hlast : lba + 1 + BitVec.ofNat 32 answers.length =
          lba + BitVec.ofNat 32 (answers.length + 1) := by
        rw [next_block, BitVec.add_assoc, BitVec.add_assoc, BitVec.add_comm 1]
      rw [hm.2, hlast, exchange, List.length_cons]
      simp only [List.append_assoc]
  complete hr := congrArg (· + 1) (hout.complete hr)

end SlopOS.Proofs.BlockTransfers
