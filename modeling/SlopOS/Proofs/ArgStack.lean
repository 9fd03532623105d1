import SlopOS.Proofs.ReachableStates
import SlopOS.Support.Alignment
import SlopOS.Support.ByteStack
import SlopOS.User.Crt0
/-!
# What `main` finds on its stack

`elf_execute_image` copies the argument strings to the top of the stack slot, puts the table of
their addresses below them and a header of two words below the table.  `_start` reads the header
and pushes it as the parameters of `main`.
-/

namespace SlopOS.Proofs.ArgStack

open SlopOS.Kernel SlopOS.Support SlopOS.Support.ByteMem

variable {image : ProcImage} {argc : Int} {argv : Nat → Option CStr}

/-- A slot for the stack whose end is a 32-bit address. -/
structure StackSlot (image : ProcImage) : Prop where
  aligned : 4 ∣ image.userStackBase.toNat
  size : 64 ≤ image.userStackSize.toNat
  fits : image.userStackBase.toNat + image.userStackSize.toNat ≤ 2 ^ 32

/-- The copy of argument `i`, which is empty for a null one. -/
def argString (argv : Nat → Option CStr) (i : Nat) : List U8 := (argv i).getD [] ++ [0]

def argCount (argc : Int) : Int := min (max argc 0) 16

def argStrings (argc : Int) (argv : Nat → Option CStr) : List (List U8) :=
  (List.range (argCount argc).toNat).map (argString argv)

/-- The memory from `sp` up to the end of the slot of a process that has `args`: the header, the
table and the strings. -/
structure HandedOver (image : ProcImage) (args : List (List U8)) (m : Mem) (sp table : U32)
    (addrs : List U32) : Prop where
  argc : loadWord m sp = BitVec.ofNat 32 args.length
  argv : loadWord m (sp + 4) = table
  entries : loadWords m table (args.length + 1) = addrs ++ [0]
  strings : List.Forall₂ (fun a s => load m a s.length = s) addrs args
  base : image.userStackBase.toNat ≤ sp.toNat
  apart : Packed sp.toNat (image.userStackBase.toNat + image.userStackSize.toNat)
    (⟨sp.toNat, 8⟩ :: ⟨table.toNat, 4 * (args.length + 1)⟩ :: stringBlocks addrs args)

/-! ## The strings -/

theorem toNat_copyLen {src : CStr} (h : src.length + 1 < 2 ^ 32) :
    (BitVec.ofNat 32 (strLen src) + 1 : U32).toNat = src.length + 1 := by
  have hsum : (BitVec.ofNat 32 (strLen src) + 1 : U32) = BitVec.ofNat 32 (src.length + 1) :=
    (BitVec.ofNat_add src.length 1).symm
  rw [hsum, BitVec.toNat_ofNat, Nat.mod_eq_of_lt h]

theorem pushArgs_stacked (hslot : StackSlot image)
    (hargs : ∀ i s, argv i = some s → s.length + 1 < 2 ^ 32) {i : Nat} {sp sp' : U32} {m m' : Mem}
    {addrs addrs' : List U32} {ss : List (List U8)}
    (hsp : image.userStackBase.toNat + 16 ≤ sp.toNat)
    (h : Stacked m (image.userStackBase.toNat + image.userStackSize.toNat) sp.toNat addrs ss)
    (hrun : pushArgs image argv i sp m addrs = (some (sp', addrs'), m')) :
    image.userStackBase.toNat + 16 ≤ sp'.toNat ∧
      Stacked m' (image.userStackBase.toNat + image.userStackSize.toNat) sp'.toNat addrs'
        ((List.range i).map (argString argv) ++ ss) := by
  have hsize := hslot.size
  have hfits := hslot.fits
  induction i generalizing sp m addrs ss with
  | zero =>
      cases hrun
      exact ⟨hsp, h⟩
  | succ i ih =>
      rw [pushArgs] at hrun
      dsimp only at hrun
      split at hrun
      · cases hrun
      split at hrun
      · cases hrun
      rename_i hlong hroom
      have hsrc : ((argv i).getD []).length + 1 < 2 ^ 32 := by
        cases hi : argv i with
        | none => exact show 0 + 1 < 2 ^ 32 by omega
        | some s => exact hargs i s hi
      have hlen : (BitVec.ofNat 32 (strLen ((argv i).getD [])) + 1 : U32).toNat =
          (argString argv i).length := by
        rw [toNat_copyLen hsrc, argString, List.length_append, List.length_singleton]
      generalize (BitVec.ofNat 32 (strLen ((argv i).getD [])) + 1 : U32) = len at *
      have hbound : len.toNat + 64 ≤ image.userStackSize.toNat := by bv_omega
      have hlow : image.userStackBase.toNat + len.toNat + 16 ≤ sp.toNat := by bv_omega
      have hnext : (sp - len).toNat + len.toNat = sp.toNat := by bv_omega
      -- past its end the source string reads as the byte that ends the copy
      have hcopy : ∀ j < len.toNat,
          ((argv i).getD []).getD j 0 = (argString argv i).getD j 0 := by
        intro j hj
        unfold argString
        grind
      rw [store_congr hcopy, hlen] at hrun
      have hpushed := h.push hfits (a := sp - len) (s := argString argv i) (by omega)
      obtain ⟨hsp', hstack⟩ := ih (by omega) hpushed hrun
      refine ⟨hsp', ?_⟩
      rw [List.range_succ, List.map_append, List.append_assoc]
      exact hstack

/-- A slot at the very end of the address space has no room for any argument. -/
theorem pushArgs_of_zero (hslot : StackSlot image) {i : Nat} {sp : U32} {m m' : Mem}
    {addrs addrs' : List U32} (hrun : pushArgs image argv i 0 m addrs = (some (sp, addrs'), m')) :
    i = 0 ∧ sp = 0 := by
  have hsize := hslot.size
  have hfits := hslot.fits
  cases i with
  | zero =>
      cases hrun
      exact ⟨rfl, rfl⟩
  | succ i =>
      rw [pushArgs] at hrun
      dsimp only at hrun
      split at hrun
      · cases hrun
      split at hrun
      · cases hrun
      rename_i hlong hroom
      generalize (BitVec.ofNat 32 (strLen ((argv i).getD [])) + 1 : U32) = len at *
      bv_omega

/-! ## The table and the header -/

theorem HandedOver.frame {args : List (List U8)} {m m' : Mem} {sp table : U32} {addrs : List U32}
    (h : HandedOver image args m sp table addrs) (hslot : StackSlot image)
    (hkeep : ∀ a : U32, sp.toNat ≤ a.toNat → m' a = m a) :
    HandedOver image args m' sp table addrs := by
  have hfits := hslot.fits
  have hwithin := h.apart.within
  obtain ⟨-, hsp⟩ := hwithin ⟨sp.toNat, 8⟩ List.mem_cons_self
  obtain ⟨htable, hend⟩ := hwithin ⟨table.toNat, 4 * (args.length + 1)⟩
    (List.mem_cons_of_mem _ List.mem_cons_self)
  unfold Block.stop at hsp hend
  dsimp only at hsp htable hend
  have hwords : loadWords m' sp 2 = loadWords m sp 2 := by
    apply loadWords_congr
    intro j hj
    apply hkeep
    rw [toNat_add_ofNat (by omega) hj]
    omega
  rw [loadWords_two, loadWords_two] at hwords
  obtain ⟨hargc, hrest⟩ := List.cons.inj hwords
  refine ⟨hargc.trans h.argc, (List.cons.inj hrest).1.trans h.argv, ?_, ?_, h.base, h.apart⟩
  · rw [← h.entries]
    apply loadWords_congr
    intro j hj
    apply hkeep
    rw [toNat_add_ofNat (by omega) hj]
    omega
  · exact loads_frame h.strings
      (fun b hb => hwithin b (List.mem_cons_of_mem _ (List.mem_cons_of_mem _ hb))) hfits hkeep

theorem handedOver_of_stacked (hslot : StackSlot image) {m : Mem} {table : U32}
    {addrs : List U32} {args : List (List U8)}
    (h : Stacked m (image.userStackBase.toNat + image.userStackSize.toNat)
      (table.toNat + 4 * (args.length + 1)) addrs args)
    (hlow : image.userStackBase.toNat + 8 ≤ table.toNat) :
    HandedOver image args (storeWords (storeWords m table (addrs ++ [0])) (table - 8)
      [BitVec.ofNat 32 args.length, table]) (table - 8) table addrs := by
  have hfits := hslot.fits
  have hend := h.le_top
  have hlen : addrs.length = args.length := h.loads.length_eq
  have hentries : (addrs ++ [0]).length = args.length + 1 := by
    rw [List.length_append, hlen, List.length_singleton]
  have hheader : (table - 8).toNat + 8 = table.toNat := by bv_omega
  -- the table lies below the strings and the header below the table
  have htable : ∀ a : U32, table.toNat + 4 * (args.length + 1) ≤ a.toNat →
      storeWords m table (addrs ++ [0]) a = m a := by
    intro a ha
    apply store_of_not_inRange
    · rw [hentries]
      omega
    · unfold InRange
      rw [hentries]
      omega
  generalize hm : storeWords m table (addrs ++ [0]) = m₁ at *
  have hkeep : ∀ a : U32, table.toNat ≤ a.toNat →
      storeWords m₁ (table - 8) [BitVec.ofNat 32 args.length, table] a = m₁ a := by
    intro a ha
    apply store_of_not_inRange
    · simp only [List.length_cons, List.length_nil]
      omega
    · unfold InRange
      simp only [List.length_cons, List.length_nil]
      omega
  have hwords := loadWords_storeWords m₁ (table - 8) [BitVec.ofNat 32 args.length, table]
    (by simp)
  rw [List.length_cons, List.length_singleton, loadWords_two] at hwords
  obtain ⟨hargc, hrest⟩ := List.cons.inj hwords
  have hstrings := (h.frame hfits htable).frame hfits fun a ha => hkeep a (by omega)
  refine ⟨hargc, (List.cons.inj hrest).1, ?_, hstrings.loads, by omega, ?_⟩
  · have hsame : loadWords (storeWords m₁ (table - 8) [BitVec.ofNat 32 args.length, table]) table
        (args.length + 1) = loadWords m₁ table (args.length + 1) := by
      apply loadWords_congr
      intro j hj
      apply hkeep
      rw [toNat_add_ofNat (by omega) hj]
      omega
    rw [hsame, ← hm, ← hentries]
    apply loadWords_storeWords
    rw [hentries]
    omega
  · have htop := h.packed.push_below hend (b := ⟨table.toNat, 4 * (args.length + 1)⟩)
      ⟨le_rfl, le_rfl⟩
    have hmid : table.toNat ≤ image.userStackBase.toNat + image.userStackSize.toNat := by omega
    exact htop.push_below hmid ⟨le_rfl, hheader.le⟩

/-! ## `crt0` -/

theorem push_keeps {m : Mem} {esp value a : U32} (hesp : 4 ≤ esp.toNat)
    (ha : esp.toNat ≤ a.toNat) : (User.push m esp value).2 a = m a := by
  apply store_of_not_inRange
  · bv_omega
  · unfold InRange
    bv_omega

theorem crt0Start_keeps {m : Mem} {sp a : U32} (ret : U32) (hsp : 12 ≤ sp.toNat)
    (ha : sp.toNat ≤ a.toNat) : (User.crt0Start m sp ret).2 a = m a := by
  have hfirst : (User.push m sp (loadWord m (sp + 4))).2 a = m a := push_keeps (by omega) ha
  have hsecond : (User.push (User.push m sp (loadWord m (sp + 4))).2 (sp - 4) (loadWord m sp)).2 a =
      (User.push m sp (loadWord m (sp + 4))).2 a := by
    apply push_keeps
    · bv_omega
    · bv_omega
  rw [← hfirst, ← hsecond]
  apply push_keeps
  · bv_omega
  · bv_omega

theorem mainArgs_crt0Start (m : Mem) (sp ret : U32) :
    User.mainArgs (User.crt0Start m sp ret).2 (User.crt0Start m sp ret).1 =
      (loadWord m sp, loadWord m (sp + 4)) := by
  have hargc : sp - 4 - 4 - 4 + 4 = sp - 4 - 4 := by bv_omega
  have hargv : sp - 4 - 4 - 4 + 8 = sp - 4 := by bv_omega
  unfold User.crt0Start User.push User.mainArgs
  dsimp only
  rw [hargc, hargv, loadWord_storeWord_of_apart (by bv_omega) (by bv_omega), loadWord_storeWord,
    loadWord_storeWord_of_apart (by bv_omega) (by bv_omega),
    loadWord_storeWord_of_apart (by bv_omega) (by bv_omega), loadWord_storeWord]

/-! ## Entering with arguments -/

theorem length_argStrings (argc : Int) (argv : Nat → Option CStr) :
    (argStrings argc argv).length = min argc.toNat elfArgMax := by
  unfold argStrings argCount elfArgMax
  rw [List.length_map, List.length_range]
  omega

theorem map_argString :
    (List.range (argStrings argc argv).length).map (argString argv) = argStrings argc argv := by
  unfold argStrings
  rw [List.length_map, List.length_range]

/-- What `main` gets, and that what it gets is still there when it starts. -/
structure Handed (image : ProcImage) (argc : Int) (argv : Nat → Option CStr) (m : Mem) (sp : U32)
    (table : U32) (addrs : List U32) : Prop where
  stack : HandedOver image (argStrings argc argv) m sp table addrs
  main : ∀ ret, User.mainArgs (User.crt0Start m sp ret).2 (User.crt0Start m sp ret).1 =
    (BitVec.ofInt 32 (argCount argc), table)
  kept : ∀ ret, 12 ≤ sp.toNat →
    HandedOver image (argStrings argc argv) (User.crt0Start m sp ret).2 sp table addrs

theorem HandedOver.handed {m : Mem} {sp table : U32} {addrs : List U32} (hslot : StackSlot image)
    (h : HandedOver image (argStrings argc argv) m sp table addrs) :
    Handed image argc argv m sp table addrs where
  stack := h
  main ret := by
    have hcount : ((argStrings argc argv).length : Int) = argCount argc := by
      rw [length_argStrings]
      unfold argCount elfArgMax
      omega
    rw [mainArgs_crt0Start, h.argc, h.argv, ← hcount, BitVec.ofInt_natCast]
  kept ret hsp := h.frame hslot fun _ ha => crt0Start_keeps ret hsp ha

/-- The image runs in user mode and its arguments are on its stack. -/
structure Entered (c : Core) (image : ProcImage) (pid argc : Int) (argv : Nat → Option CStr) :
    Prop where
  active : c.ring3.active = true
  current : c.ring3.currentPid = toU32 pid
  eip : c.ring3.regs.eip = image.entry
  handed : ∃ table addrs, Handed image argc argv c.mem c.ring3.regs.userEsp table addrs

/-- The strings are on the stack of the process and the table and the header fit below them. -/
theorem pushed_stacked {c : Core} {sp : U32} {addrs : List U32} {m : Mem} (hslot : StackSlot image)
    (hargs : ∀ i s, argv i = some s → s.length + 1 < 2 ^ 32)
    (hpush : Loader.pushed c image argc argv = (some (sp, addrs), m))
    (hroom : ¬(sp &&& ~~~3) < image.userStackBase + Loader.argTableSize argc + 8) :
    image.userStackBase.toNat + 16 ≤ sp.toNat ∧
      Stacked m (image.userStackBase.toNat + image.userStackSize.toNat) sp.toNat addrs
        (argStrings argc argv) := by
  have hsize := hslot.size
  have hfits := hslot.fits
  have hcount := length_argStrings argc argv
  unfold Loader.pushed at hpush
  by_cases hfull : image.userStackBase.toNat + image.userStackSize.toNat = 2 ^ 32
  · have hzero : image.userStackBase + image.userStackSize = 0 := by bv_omega
    rw [hzero] at hpush
    obtain ⟨hnone, rfl⟩ := pushArgs_of_zero hslot hpush
    have htableSize := Loader.toNat_argTableSize argc
    rw [hnone] at htableSize
    have htop : (0 &&& ~~~3 : U32) = 0 := by decide
    rw [htop] at hroom
    bv_omega
  · have htop : (image.userStackBase + image.userStackSize).toNat =
        image.userStackBase.toNat + image.userStackSize.toNat := by bv_omega
    have hempty : Stacked c.mem (image.userStackBase.toNat + image.userStackSize.toNat)
        (image.userStackBase + image.userStackSize).toNat [] [] := htop.le
    have hpushed := pushArgs_stacked hslot hargs (by omega) hempty hpush
    rw [List.append_nil, Loader.stackedArgs, ← hcount, map_argString] at hpushed
    exact hpushed

theorem elfExecuteImage_args (c : Core) (pid argc : Int) (hslot : StackSlot image)
    (hargs : ∀ i s, argv i = some s → s.length + 1 < 2 ^ 32) :
    ((elfExecuteImage c image pid argc argv).1 = false ∧
      (elfExecuteImage c image pid argc argv).2.ring3 = c.ring3) ∨
    ((elfExecuteImage c image pid argc argv).1 = true ∧
      Entered (elfExecuteImage c image pid argc argv).2 image pid argc argv) := by
  have hdone := Loader.elfExecuteImage_cases c image pid argc argv
  generalize elfExecuteImage c image pid argc argv = r at hdone ⊢
  cases hdone with
  | refused => exact Or.inl ⟨rfl, rfl⟩
  | unpushed hpush => exact Or.inl ⟨rfl, rfl⟩
  | crowded hpush => exact Or.inl ⟨rfl, rfl⟩
  | low hpush hroom => exact Or.inl ⟨rfl, rfl⟩
  | @entered sp addrs m hsize hpush hroom hlow =>
      have hfits := hslot.fits
      have hle : Loader.stackedArgs argc ≤ 16 := Nat.min_le_right _ _
      obtain ⟨hsp, hstack⟩ := pushed_stacked hslot hargs hpush hroom
      have htableSize := Loader.toNat_argTableSize argc
      have hcount : Loader.stackedArgs argc = (argStrings argc argv).length :=
        (length_argStrings argc argv).symm
      have halign : (sp &&& ~~~3 : U32).toNat = sp.toNat / 4 * 4 :=
        Alignment.toNat_and_not_mask sp 2
      have hlow' : image.userStackBase.toNat + 8 ≤ (Loader.argTable argc sp).toNat := by bv_omega
      have hbelow : (Loader.argTable argc sp).toNat + 4 * ((argStrings argc argv).length + 1) ≤
          sp.toNat := by
        rw [← hcount]
        unfold Loader.argTable at hlow ⊢
        bv_omega
      have hlaid := handedOver_of_stacked hslot (hstack.mono hbelow) hlow'
      rw [← hcount] at hlaid
      exact Or.inr ⟨rfl, rfl, rfl, rfl, Loader.argTable argc sp, addrs, hlaid.handed hslot⟩

def demoImage : ProcImage where
  loaded := true
  entry := elfUserImageBase
  imageBase := elfUserImageBase
  imageSize := 4096
  userStackBase := 0x00130000
  userStackSize := 128
  cwd := none
  output := .vga
  contextValid := false
  context := {}

def demoArgv (i : Nat) : Option CStr := [cstr "cat", cstr "notes"][i]?

theorem elfExecuteImage_args_demo :
    Entered (elfExecuteImage (coreInit ReachableStates.demoBoot.mach) demoImage 1 3 demoArgv).2 demoImage
      1 3 demoArgv := by
  have hslot : StackSlot demoImage := ⟨by decide, by decide, by decide⟩
  have hargs : ∀ i s, demoArgv i = some s → s.length + 1 < 2 ^ 32 := by
    intro i s hs
    have hmem : s ∈ [cstr "cat", cstr "notes"] := List.mem_of_getElem? hs
    have hall : ∀ s ∈ [cstr "cat", cstr "notes"], s.length + 1 < 2 ^ 32 := by decide
    exact hall s hmem
  have hentered : (elfExecuteImage (coreInit ReachableStates.demoBoot.mach) demoImage 1 3 demoArgv).1 =
      true := by decide +kernel
  rcases elfExecuteImage_args (coreInit ReachableStates.demoBoot.mach) 1 3 hslot hargs with h | h
  · rw [hentered] at h
    exact absurd h.1 (by decide)
  · exact h.2

end SlopOS.Proofs.ArgStack
