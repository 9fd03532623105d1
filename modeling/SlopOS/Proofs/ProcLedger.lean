import SlopOS.Proofs.Tables
import SlopOS.Support.History
import SlopOS.Support.Runs
import SlopOS.Support.SlotKeys
/-!
# The process ledger

Every run of the calls of `proc.c` writes a ledger: who was spawned by whom, what was bound and
what codes were given, who was reported and how.  The two arrays, the counter and the pid generator
agree with it after every call.
-/

namespace SlopOS.Proofs.ProcLedger

open SlopOS.Support SlopOS.Kernel SlopOS.Proofs.Tables

/-! ## Calls and entries -/

inductive ProcCall
  | spawn (name : Option CStr) (ppid : Int)
  | exit (pid code : Int)
  | setState (pid : Int) (state : ProcState) (used : state ≠ .unused)
  | bindImage (pid : Int) (image : Option ProcImage)
  | wait (ppid : Int)
  | reap (pid : Int)

inductive ProcEntry
  | spawned (pid ppid : Int)
  | exited (pid code : Int)
  | bound (pid : Int) (image : ProcImage)
  | waited (ppid pid code : Int)
  | reaped (pid code : Int)

/-- Whether the call succeeded, what is entered for it, and the table after it. -/
structure ProcDone where
  ok : Bool
  entries : List ProcEntry
  table : ProcTable

def procDo (t : ProcTable) : ProcCall → ProcDone
  | .spawn name ppid =>
    match procSpawnKernel t name ppid with
    | none => ⟨false, [], t⟩
    | some (pid, t') => ⟨true, [.spawned pid ppid], t'⟩
  | .exit pid code =>
    match t.findSlotByPid pid with
    | none => ⟨false, [], procExit t pid code⟩
    | some _ => ⟨true, [.exited pid code], procExit t pid code⟩
  | .setState pid state _ => ⟨(t.findSlotByPid pid).isSome, [], procSetState t pid state⟩
  | .bindImage _ none => ⟨false, [], t⟩
  | .bindImage pid (some image) =>
    match t.findSlotByPid pid with
    | none => ⟨false, [], procBindImage t pid image⟩
    | some _ => ⟨true, [.bound pid image], procBindImage t pid image⟩
  | .wait ppid =>
    match procWait t ppid with
    | none => ⟨false, [], t⟩
    | some (pid, code, t') => ⟨true, [.waited ppid pid code], t'⟩
  | .reap pid =>
    match procReapPid t pid with
    | none => ⟨false, [], t⟩
    | some (code, t') => ⟨true, [.reaped pid code], t'⟩

def procStep (t : ProcTable) (call : ProcCall) : Option ProcTable := some (procDo t call).table

/-- The ledger of a run from `proc_init`, which makes process 0 itself. -/
def ledger (calls : List ProcCall) : List ProcEntry :=
  .spawned 0 (-1) :: Runs.observe procStep (fun t call => (procDo t call).entries) procInit calls

/-! ## What a ledger says -/

def ProcEntry.pid : ProcEntry → Int
  | .spawned pid _ => pid
  | .exited pid _ => pid
  | .bound pid _ => pid
  | .waited _ pid _ => pid
  | .reaped pid _ => pid

def ProcEntry.parent? : ProcEntry → Option Int
  | .spawned _ ppid => some ppid
  | _ => none

def ProcEntry.code? : ProcEntry → Option Int
  | .exited _ code => some code
  | _ => none

def ProcEntry.image? : ProcEntry → Option ProcImage
  | .bound _ image => some image
  | _ => none

/-- The code that a successful `proc_wait` or `proc_reap_pid` reported. -/
def ProcEntry.report? : ProcEntry → Option Int
  | .waited _ _ code => some code
  | .reaped _ code => some code
  | _ => none

def about (log : List ProcEntry) (pid : Int) : List ProcEntry := log.filter fun e => e.pid = pid

/-- The parents that were recorded when `pid` was spawned. -/
def parents (log : List ProcEntry) (pid : Int) : List Int :=
  (about log pid).filterMap ProcEntry.parent?

def lastCode (log : List ProcEntry) (pid : Int) : Int :=
  ((about log pid).filterMap ProcEntry.code?).getLastD 0

def lastImage (log : List ProcEntry) (pid : Int) : ProcImage :=
  ((about log pid).filterMap ProcEntry.image?).getLastD emptyImage

def reports (log : List ProcEntry) (pid : Int) : List Int :=
  (about log pid).filterMap ProcEntry.report?

def Fair (front : List ProcEntry) : ProcEntry → Prop
  | .spawned pid _ => about front pid = []
  | .exited pid _ => reports front pid = []
  | .bound pid _ => reports front pid = []
  | .waited ppid pid code =>
    reports front pid = [] ∧ parents front pid = [ppid] ∧ code = lastCode front pid
  | .reaped pid code => reports front pid = [] ∧ code = lastCode front pid

structure Accounts (t : ProcTable) (log : List ProcEntry) : Prop where
  count : t.used = (Finset.univ.filter fun i => (t.procs i).state ≠ .unused).card
  distinct : SlotTable.Distinct ProcessInfo.key t.procs
  next : t.nextPid = (log.filterMap ProcEntry.parent?).length
  below : ∀ pid slot, t.findSlotByPid pid = some slot → pid < t.nextPid
  image : ∀ pid image, procGetImage t pid = some image → image = lastImage log pid
  fair : History.Each Fair log
  once : ∀ pid, (reports log pid).length ≤ 1
  gone : ∀ pid, reports log pid ≠ [] → t.findSlotByPid pid = none
  failed : ∀ call, (procDo t call).ok = false → (procDo t call).table = t

variable {t t' : ProcTable} {log : List ProcEntry} {pid q : Int} {slot : Fin maxProcs}
variable {e : ProcEntry} {call : ProcCall}

/-! ## The slot of a pid -/

def record (t : ProcTable) (pid : Int) : Option (ProcessInfo × ProcImage) :=
  (t.findSlotByPid pid).map fun i => (t.procs i, t.images i)

theorem record_of_find (h : t.findSlotByPid pid = some slot) :
    record t pid = some (t.procs slot, t.images slot) := by
  rw [record, h, Option.map_some]

theorem record_of_find_none (h : t.findSlotByPid pid = none) : record t pid = none := by
  rw [record, h, Option.map_none]

theorem find_of_record {r : ProcessInfo × ProcImage} (h : record t pid = some r) :
    ∃ slot, t.findSlotByPid pid = some slot ∧ r = (t.procs slot, t.images slot) := by
  obtain ⟨slot, hslot, hr⟩ := Option.map_eq_some_iff.mp h
  exact ⟨slot, hslot, hr.symm⟩

theorem ne_of_find_ne {slot' : Fin maxProcs} (hne : q ≠ pid)
    (h : t.findSlotByPid pid = some slot) (h' : t.findSlotByPid q = some slot') : slot' ≠ slot := by
  rintro rfl
  exact hne (SlotTable.indexOf_inj h' h)

theorem record_change {p : ProcessInfo} {image : ProcImage} (h : t.findSlotByPid pid = some slot)
    (hkey : p.key = (t.procs slot).key) :
    record ((t.setProc slot p).setImage slot image) q =
      if q = pid then some (p, image) else record t q := by
  have hfind : ((t.setProc slot p).setImage slot image).findSlotByPid q = t.findSlotByPid q :=
    congrFun (find_setProc_same hkey) q
  by_cases hq : q = pid
  · subst hq
    rw [if_pos rfl, record_of_find (hfind.trans h)]
    simp [ProcTable.setProc, ProcTable.setImage]
  rw [if_neg hq]
  cases hs : t.findSlotByPid q with
  | none => rw [record_of_find_none hs, record_of_find_none (hfind.trans hs)]
  | some slot' =>
      have hne := ne_of_find_ne hq h hs
      rw [record_of_find hs, record_of_find (hfind.trans hs)]
      simp [ProcTable.setProc, ProcTable.setImage, Function.update_of_ne hne]

theorem setProc_eq (t : ProcTable) (slot : Fin maxProcs) (p : ProcessInfo) :
    t.setProc slot p = (t.setProc slot p).setImage slot (t.images slot) := by
  simp [ProcTable.setProc, ProcTable.setImage]

theorem setImage_eq (t : ProcTable) (slot : Fin maxProcs) (image : ProcImage) :
    t.setImage slot image = (t.setProc slot (t.procs slot)).setImage slot image := by
  simp [ProcTable.setProc, ProcTable.setImage]

theorem record_release (hd : SlotTable.Distinct ProcessInfo.key t.procs)
    (h : t.findSlotByPid pid = some slot) :
    record (procRelease t slot) q = if q = pid then none else record t q := by
  have hfind : (procRelease t slot).findSlotByPid q = if q = pid then none else t.findSlotByPid q :=
    SlotTable.indexOf_update_free hd (procKey_of_find h) rfl
  by_cases hq : q = pid
  · rw [if_pos hq]
    rw [if_pos hq] at hfind
    exact record_of_find_none hfind
  rw [if_neg hq] at hfind ⊢
  cases hs : t.findSlotByPid q with
  | none => rw [record_of_find_none hs, record_of_find_none (hfind.trans hs)]
  | some slot' =>
      have hne := ne_of_find_ne hq h hs
      rw [record_of_find hs, record_of_find (hfind.trans hs)]
      simp [procRelease, ProcTable.setProc, ProcTable.setImage, Function.update_of_ne hne]

/-! ## Entering into the ledger -/

theorem about_append (log : List ProcEntry) (e : ProcEntry) (q : Int) :
    about (log ++ [e]) q = about log q ++ if e.pid = q then [e] else [] := by
  unfold about
  rw [List.filter_append]
  by_cases hq : e.pid = q
  · rw [if_pos hq, List.filter_cons_of_pos (by simpa using hq), List.filter_nil]
  · rw [if_neg hq, List.filter_cons_of_neg (by simpa using hq), List.filter_nil]

theorem about_append_of_eq (log : List ProcEntry) (hq : e.pid = q) :
    about (log ++ [e]) q = about log q ++ [e] := by
  rw [about_append, if_pos hq]

theorem about_append_of_ne (log : List ProcEntry) (hq : q ≠ e.pid) :
    about (log ++ [e]) q = about log q := by
  rw [about_append, if_neg (Ne.symm hq), List.append_nil]

theorem Fair.unreported (h : Fair log e) (hreport : e.report? ≠ none) :
    reports log e.pid = [] := by
  cases e with
  | spawned pid ppid => exact absurd rfl hreport
  | exited pid code => exact absurd rfl hreport
  | bound pid image => exact absurd rfl hreport
  | waited ppid pid code => exact h.1
  | reaped pid code => exact h.1

theorem reports_append (log : List ProcEntry) (e : ProcEntry) :
    reports (log ++ [e]) e.pid = reports log e.pid ++ e.report?.toList := by
  unfold reports
  rw [about_append_of_eq log rfl, List.filterMap_append]
  cases hreport : e.report? <;> simp [hreport]

theorem once_append (hfair : Fair log e) (h : ∀ pid, (reports log pid).length ≤ 1) (q : Int) :
    (reports (log ++ [e]) q).length ≤ 1 := by
  by_cases hq : q = e.pid
  · rw [hq, reports_append]
    cases hreport : e.report? with
    | none =>
        rw [Option.toList_none, List.append_nil]
        exact h e.pid
    | some code =>
        rw [hfair.unreported (by simp [hreport])]
        exact le_rfl
  · unfold reports
    rw [about_append_of_ne log hq]
    exact h q

/-- What the slot of a process says, the ledger says too. -/
structure Describes (r : ProcessInfo × ProcImage) (log : List ProcEntry) (pid : Int) : Prop where
  parent : parents log pid = [r.1.ppid]
  code : r.1.exitCode = lastCode log pid
  image : r.2 = lastImage log pid
  alive : reports log pid = []

theorem Describes.congr {r : ProcessInfo × ProcImage} {log' : List ProcEntry}
    (h : Describes r log pid) (habout : about log' pid = about log pid) : Describes r log' pid := by
  obtain ⟨hparent, hcode, himage, halive⟩ := h
  unfold parents at hparent
  unfold lastCode at hcode
  unfold lastImage at himage
  unfold reports at halive
  rw [← habout] at hparent hcode himage halive
  exact ⟨hparent, hcode, himage, halive⟩

theorem describes_spawned {p : ProcessInfo} (hnone : about log pid = []) (hcode : p.exitCode = 0) :
    Describes (p, emptyImage) (log ++ [.spawned pid p.ppid]) pid := by
  have habout : about (log ++ [.spawned pid p.ppid]) pid = about log pid ++ [.spawned pid p.ppid] :=
    about_append_of_eq log rfl
  rw [hnone, List.nil_append] at habout
  constructor
  · rw [parents, habout]
    rfl
  · rw [lastCode, habout]
    exact hcode
  · rw [lastImage, habout]
    rfl
  · rw [reports, habout]
    rfl

theorem describes_exited {p : ProcessInfo} {image : ProcImage} {state : ProcState} {code : Int}
    (h : Describes (p, image) log pid) :
    Describes ({ p with state := state, exitCode := code }, image) (log ++ [.exited pid code])
      pid := by
  have habout : about (log ++ [.exited pid code]) pid = about log pid ++ [.exited pid code] :=
    about_append_of_eq log rfl
  constructor
  · rw [parents, habout, List.filterMap_append]
    exact (List.append_nil _).trans h.parent
  · rw [lastCode, habout, List.filterMap_append]
    exact List.getLastD_concat.symm
  · rw [lastImage, habout, List.filterMap_append]
    exact h.image.trans (congrArg (List.getLastD · emptyImage) (List.append_nil _).symm)
  · rw [reports, habout, List.filterMap_append]
    exact (List.append_nil _).trans h.alive

theorem describes_bound {p : ProcessInfo} {image image' : ProcImage}
    (h : Describes (p, image) log pid) :
    Describes (p, image') (log ++ [.bound pid image']) pid := by
  have habout : about (log ++ [.bound pid image']) pid = about log pid ++ [.bound pid image'] :=
    about_append_of_eq log rfl
  constructor
  · rw [parents, habout, List.filterMap_append]
    exact (List.append_nil _).trans h.parent
  · rw [lastCode, habout, List.filterMap_append]
    exact h.code.trans (congrArg (List.getLastD · 0) (List.append_nil _).symm)
  · rw [lastImage, habout, List.filterMap_append]
    exact List.getLastD_concat.symm
  · rw [reports, habout, List.filterMap_append]
    exact (List.append_nil _).trans h.alive

/-! ## The invariant -/

structure Kept (t : ProcTable) (log : List ProcEntry) : Prop where
  count : t.used = SlotTable.occupied ProcessInfo.key t.procs
  distinct : SlotTable.Distinct ProcessInfo.key t.procs
  next : t.nextPid = (log.filterMap ProcEntry.parent?).length
  below : ∀ e ∈ log, e.pid < t.nextPid
  held : ∀ pid r, record t pid = some r → Describes r log pid
  fair : History.Each Fair log
  once : ∀ pid, (reports log pid).length ≤ 1

/-- What a call leaves of a table, its records apart. -/
structure Tallied (t t' : ProcTable) (spawned : Int) : Prop where
  count : t'.used = SlotTable.occupied ProcessInfo.key t'.procs
  distinct : SlotTable.Distinct ProcessInfo.key t'.procs
  next : t'.nextPid = t.nextPid + spawned

theorem Kept.enter {r : Option (ProcessInfo × ProcImage)} (h : Kept t log)
    (htally : Tallied t t' e.parent?.toList.length)
    (hrecord : ∀ q, record t' q = if q = e.pid then r else record t q) (hfair : Fair log e)
    (hbelow : e.pid < t'.nextPid) (hr : ∀ r', r = some r' → Describes r' (log ++ [e]) e.pid) :
    Kept t' (log ++ [e]) where
  count := htally.count
  distinct := htally.distinct
  next := by
    rw [htally.next, h.next, List.filterMap_append, List.length_append]
    cases e <;> simp [ProcEntry.parent?]
  below e' he' := by
    rcases List.mem_append.mp he' with he' | he'
    · have hlt := h.below e' he'
      have hnext := htally.next
      omega
    · rw [List.mem_singleton.mp he']
      exact hbelow
  held q r' hq := by
    rw [hrecord] at hq
    by_cases hpid : q = e.pid
    · rw [if_pos hpid] at hq
      rw [hpid]
      exact hr r' hq
    · rw [if_neg hpid] at hq
      exact (h.held q r' hq).congr (about_append_of_ne log hpid)
  fair := History.each_append_singleton.mpr ⟨h.fair, hfair⟩
  once := once_append hfair h.once

theorem Kept.about_fresh (h : Kept t log) (hpid : t.nextPid ≤ pid) : about log pid = [] := by
  apply List.filter_eq_nil_iff.mpr
  intro e he hsame
  have hlt := h.below e he
  have heq : e.pid = pid := of_decide_eq_true hsame
  omega

theorem Kept.pid_lt {r : ProcessInfo × ProcImage} (h : Kept t log) (hr : record t pid = some r) :
    pid < t.nextPid := by
  by_contra hge
  have hparent := (h.held pid r hr).parent
  unfold parents at hparent
  rw [h.about_fresh (Int.not_lt.mp hge)] at hparent
  cases hparent

theorem Kept.find_fresh (h : Kept t log) : t.findSlotByPid t.nextPid = none := by
  cases hfind : t.findSlotByPid t.nextPid with
  | none => rfl
  | some slot => exact absurd (h.pid_lt (record_of_find hfind)) (lt_irrefl _)

/-! ## The calls -/

theorem occupied_setProc (t : ProcTable) (slot : Fin maxProcs) (p : ProcessInfo) :
    SlotTable.occupied ProcessInfo.key (t.setProc slot p).procs +
        (if (t.procs slot).key.isSome then 1 else 0) =
      SlotTable.occupied ProcessInfo.key t.procs + if p.key.isSome then 1 else 0 :=
  SlotTable.occupied_update

theorem Kept.tally_change {p : ProcessInfo} {image : ProcImage} (h : Kept t log)
    (hkey : p.key = (t.procs slot).key) :
    Tallied t ((t.setProc slot p).setImage slot image) 0 where
  count := by
    have hcount := occupied_setProc t slot p
    rw [hkey] at hcount
    exact h.count.trans (Nat.add_right_cancel hcount).symm
  distinct := h.distinct.update_same hkey
  next := (Int.add_zero _).symm

theorem Kept.tally_release (h : Kept t log) (hfind : t.findSlotByPid pid = some slot) :
    Tallied t (procRelease t slot) 0 where
  count := by
    have hcount := occupied_setProc t slot emptyProcess
    have hempty : emptyProcess.key = none := rfl
    rw [procKey_of_find hfind, hempty, Option.isSome_some, Option.isSome_none, if_pos rfl,
      if_neg Bool.false_ne_true, ← h.count] at hcount
    exact (Nat.eq_sub_of_add_eq hcount).symm
  distinct := h.distinct.update_free rfl
  next := (Int.add_zero _).symm

theorem record_fresh {p : ProcessInfo} {used : Nat} {next : Int} (hfree : (t.procs slot).key = none)
    (hkey : p.key = some pid) (hfresh : t.findSlotByPid pid = none) :
    record { (t.setProc slot p).setImage slot emptyImage with used := used, nextPid := next } q =
      if q = pid then some (p, emptyImage) else record t q := by
  have hfind : ({ (t.setProc slot p).setImage slot emptyImage with
      used := used, nextPid := next } : ProcTable).findSlotByPid q =
      if q = pid then some slot else t.findSlotByPid q :=
    SlotTable.indexOf_update_fresh hfree hkey hfresh
  by_cases hq : q = pid
  · rw [if_pos hq] at hfind ⊢
    rw [record_of_find hfind]
    simp [ProcTable.setProc, ProcTable.setImage]
  rw [if_neg hq] at hfind ⊢
  cases hs : t.findSlotByPid q with
  | none => rw [record_of_find_none hs, record_of_find_none (hfind.trans hs)]
  | some slot' =>
      have hne : slot' ≠ slot := by
        rintro rfl
        rw [procKey_of_find hs] at hfree
        cases hfree
      rw [record_of_find hs, record_of_find (hfind.trans hs)]
      simp [ProcTable.setProc, ProcTable.setImage, Function.update_of_ne hne]

theorem Kept.spawn {name : Option CStr} {ppid : Int} (h : Kept t log)
    (hspawn : procSpawnKernel t name ppid = some (pid, t')) :
    Kept t' (log ++ [.spawned pid ppid]) := by
  unfold procSpawnKernel at hspawn
  split at hspawn
  · cases hspawn
  rename_i slot hslot
  have hfree : (t.procs slot).key = none := SlotTable.key_of_firstFree hslot
  cases hspawn
  have hnone := h.about_fresh (le_refl t.nextPid)
  let p : ProcessInfo := ⟨t.nextPid, ppid, .ready, 0, strCopy (name.getD (cstr "kproc")) 16⟩
  have hkey : p.key = some t.nextPid := rfl
  apply h.enter (r := some (p, emptyImage))
  · refine ⟨?_, h.distinct.update_fresh hkey h.find_fresh, rfl⟩
    have hcount := occupied_setProc t slot p
    rw [hkey, hfree, Option.isSome_some, Option.isSome_none, if_pos rfl,
      if_neg Bool.false_ne_true, ← h.count] at hcount
    exact hcount.symm
  · intro q
    exact record_fresh hfree hkey h.find_fresh
  · exact hnone
  · exact Int.lt_succ t.nextPid
  · intro r' hr'
    cases hr'
    exact describes_spawned hnone rfl

theorem Kept.change {p : ProcessInfo} {image : ProcImage} (h : Kept t log)
    (hfind : t.findSlotByPid pid = some slot) (hkey : p.key = (t.procs slot).key)
    (he : e.pid = pid) (hspawn : e.parent? = none) (hfair : reports log pid = [] → Fair log e)
    (hr : Describes (t.procs slot, t.images slot) log pid →
      Describes (p, image) (log ++ [e]) pid) :
    Kept ((t.setProc slot p).setImage slot image) (log ++ [e]) := by
  have hrecord := record_of_find hfind
  have hheld := h.held pid _ hrecord
  apply h.enter (r := some (p, image))
  · rw [hspawn]
    exact h.tally_change hkey
  · intro q
    rw [he]
    exact record_change hfind hkey
  · exact hfair hheld.alive
  · rw [he]
    exact h.pid_lt hrecord
  · intro r' hr'
    cases hr'
    rw [he]
    exact hr hheld

theorem key_used {p : ProcessInfo} {state : ProcState} {code : Int} (hused : state ≠ .unused)
    (hp : p.key = some pid) :
    ({ p with state := state, exitCode := code } : ProcessInfo).key = p.key := by
  rw [hp]
  exact procKey_eq_some.mpr ⟨hused, (procKey_eq_some.mp hp).2⟩

theorem Kept.exit {code : Int} (h : Kept t log) (hfind : t.findSlotByPid pid = some slot) :
    Kept (procExit t pid code) (log ++ [.exited pid code]) := by
  have hkey : ({ t.procs slot with state := .zombie, exitCode := code } : ProcessInfo).key =
      (t.procs slot).key := key_used (by decide) (procKey_of_find hfind)
  rw [procExit_eq code hfind, setProc_eq]
  exact h.change hfind hkey rfl rfl (fun halive => halive) describes_exited

theorem Kept.bindImage {image : ProcImage} (h : Kept t log)
    (hfind : t.findSlotByPid pid = some slot) :
    Kept (procBindImage t pid image) (log ++ [.bound pid image]) := by
  have hbind : procBindImage t pid image = t.setImage slot image := by
    rw [procBindImage, hfind]
  rw [hbind, setImage_eq]
  exact h.change hfind rfl rfl rfl (fun halive => halive) describes_bound

theorem Kept.setState {state : ProcState} (h : Kept t log) (hused : state ≠ .unused)
    (hfind : t.findSlotByPid pid = some slot) : Kept (procSetState t pid state) log := by
  have hkey : ({ t.procs slot with state := state } : ProcessInfo).key = (t.procs slot).key :=
    key_used hused (procKey_of_find hfind)
  have htally : Tallied t ((t.setProc slot { t.procs slot with state := state }).setImage slot
      (t.images slot)) 0 := h.tally_change hkey
  rw [procs_procSetState hfind, setProc_eq]
  refine ⟨htally.count, htally.distinct, h.next, h.below, fun q r hq => ?_, h.fair, h.once⟩
  rw [record_change hfind hkey] at hq
  by_cases hpid : q = pid
  · rw [if_pos hpid] at hq
    cases hq
    obtain ⟨hparent, hcode, himage, halive⟩ := h.held pid _ (record_of_find hfind)
    rw [hpid]
    exact ⟨hparent, hcode, himage, halive⟩
  · rw [if_neg hpid] at hq
    exact h.held q r hq

theorem Kept.release (h : Kept t log) (hfind : t.findSlotByPid pid = some slot) (he : e.pid = pid)
    (hspawn : e.parent? = none)
    (hfair : Describes (t.procs slot, t.images slot) log pid → Fair log e) :
    Kept (procRelease t slot) (log ++ [e]) := by
  have hrecord := record_of_find hfind
  apply h.enter (r := none)
  · rw [hspawn]
    exact h.tally_release hfind
  · intro q
    rw [he]
    exact record_release h.distinct hfind
  · exact hfair (h.held pid _ hrecord)
  · rw [he]
    exact h.pid_lt hrecord
  · intro r' hr'
    cases hr'

theorem Kept.wait {ppid code : Int} (h : Kept t log)
    (hwait : procWait t ppid = some (pid, code, t')) :
    Kept t' (log ++ [.waited ppid pid code]) := by
  unfold procWait at hwait
  split at hwait
  · cases hwait
  rename_i slot hslot
  have hchild := (Fin.find?_eq_some_iff.mp hslot).1
  simp only [decide_eq_true_eq] at hchild
  cases hwait
  have hkey : (t.procs slot).key = some (t.procs slot).pid :=
    procKey_eq_some.mpr ⟨by simp [hchild.1], rfl⟩
  have hfind : t.findSlotByPid (t.procs slot).pid = some slot :=
    h.distinct.indexOf_eq_some.mpr hkey
  apply h.release hfind rfl rfl
  intro hdescribes
  refine ⟨hdescribes.alive, ?_, hdescribes.code⟩
  rw [← hchild.2]
  exact hdescribes.parent

theorem Kept.reap {code : Int} (h : Kept t log) (hreap : procReapPid t pid = some (code, t')) :
    Kept t' (log ++ [.reaped pid code]) := by
  unfold procReapPid at hreap
  split at hreap
  · cases hreap
  rename_i slot hfind
  split at hreap
  · cases hreap
    exact h.release hfind rfl rfl fun hdescribes => ⟨hdescribes.alive, hdescribes.code⟩
  · cases hreap

/-! ## Every run -/

/-- A call that fails changes nothing, and one that succeeds is entered. -/
theorem procDo_cases (h : Kept t log) (call : ProcCall) :
    procDo t call = ⟨false, [], t⟩ ∨
      (procDo t call).ok = true ∧ Kept (procDo t call).table (log ++ (procDo t call).entries) := by
  cases call with
  | spawn name ppid =>
      dsimp only [procDo]
      cases hspawn : procSpawnKernel t name ppid with
      | none => exact Or.inl rfl
      | some s => exact Or.inr ⟨rfl, h.spawn hspawn⟩
  | exit pid code =>
      dsimp only [procDo]
      cases hfind : t.findSlotByPid pid with
      | none =>
          have hsame : procExit t pid code = t := by rw [procExit, hfind]
          rw [hsame]
          exact Or.inl rfl
      | some slot => exact Or.inr ⟨rfl, h.exit hfind⟩
  | setState pid state hused =>
      dsimp only [procDo]
      cases hfind : t.findSlotByPid pid with
      | none =>
          have hsame : procSetState t pid state = t := by rw [procSetState, hfind]
          rw [hsame]
          exact Or.inl rfl
      | some slot =>
          refine Or.inr ⟨rfl, ?_⟩
          rw [List.append_nil]
          exact h.setState hused hfind
  | bindImage pid image =>
      cases image with
      | none => exact Or.inl rfl
      | some image =>
          dsimp only [procDo]
          cases hfind : t.findSlotByPid pid with
          | none =>
              have hsame : procBindImage t pid image = t := by rw [procBindImage, hfind]
              rw [hsame]
              exact Or.inl rfl
          | some slot => exact Or.inr ⟨rfl, h.bindImage hfind⟩
  | wait ppid =>
      dsimp only [procDo]
      cases hwait : procWait t ppid with
      | none => exact Or.inl rfl
      | some w => exact Or.inr ⟨rfl, h.wait hwait⟩
  | reap pid =>
      dsimp only [procDo]
      cases hreap : procReapPid t pid with
      | none => exact Or.inl rfl
      | some r => exact Or.inr ⟨rfl, h.reap hreap⟩

theorem kept_step (h : Kept t log) (hstep : procStep t call = some t') :
    Kept t' (log ++ (procDo t call).entries) := by
  obtain rfl := Option.some.inj hstep
  rcases procDo_cases h call with hfailed | ⟨-, hkept⟩
  · rw [hfailed, List.append_nil]
    exact h
  · exact hkept

theorem kept_procInit : Kept procInit [.spawned 0 (-1)] where
  count := by decide +kernel
  distinct := SlotTable.distinct_single (k := 0) 0 rfl rfl
  next := rfl
  below e he := by
    rw [List.mem_singleton.mp he]
    decide
  held q r hr := by
    obtain ⟨slot, hfind, rfl⟩ := find_of_record hr
    have hzero : procInit.findSlotByPid q = if q = 0 then some 0 else none :=
      SlotTable.indexOf_single 0 rfl rfl
    rw [hzero] at hfind
    split at hfind
    · rename_i hq
      cases hfind
      rw [hq]
      exact ⟨rfl, rfl, rfl, rfl⟩
    · cases hfind
  fair := by
    rw [← List.nil_append [ProcEntry.spawned 0 (-1)], History.each_append_singleton]
    exact ⟨History.each_nil, rfl⟩
  once q := by
    have hle : (about [.spawned 0 (-1)] q).length ≤ 1 := List.length_filter_le _ _
    exact Nat.le_trans (List.length_filterMap_le _ _) hle

theorem Kept.accounts (h : Kept t log) : Accounts t log where
  count := by
    rw [h.count]
    unfold SlotTable.occupied
    congr 1
    apply Finset.filter_congr
    intro i _
    rw [Option.isSome_iff_ne_none, Ne, ProcessInfo.key]
    by_cases hstate : (t.procs i).state = .unused <;> simp [hstate]
  distinct := h.distinct
  next := h.next
  below q slot hfind := h.pid_lt (record_of_find hfind)
  image q image himage := by
    obtain ⟨slot, hfind, rfl⟩ := Option.map_eq_some_iff.mp himage
    exact (h.held q _ (record_of_find hfind)).image
  fair := h.fair
  once := h.once
  gone q hreported := by
    cases hfind : t.findSlotByPid q with
    | none => rfl
    | some slot => exact absurd (h.held q _ (record_of_find hfind)).alive hreported
  failed call hfail := by
    rcases procDo_cases h call with hfailed | ⟨hok, -⟩
    · rw [hfailed]
    · rw [hok] at hfail
      cases hfail

theorem accounts_run {calls : List ProcCall} (hrun : Runs.run procStep procInit calls = some t) :
    Accounts t (ledger calls) := by
  have hkept : Kept t ([.spawned 0 (-1)] ++ Runs.observe procStep
      (fun t call => (procDo t call).entries) procInit calls) :=
    Runs.observe_invariant (fun _ _ _ _ _ h hstep => kept_step h hstep)
      (Runs.AllSteps.trivial procInit calls) hrun kept_procInit
  exact hkept.accounts

/-- A child exits twice, is waited for by its parent, and its slot goes to another one. -/
def demoLedger : List ProcCall :=
  [.spawn none 0, .bindImage 1 (some { emptyImage with loaded := true }), .exit 1 3, .exit 1 7,
    .wait 0, .reap 1, .spawn none 0]

theorem accounts_demo : ∃ t, Runs.run procStep procInit demoLedger = some t ∧
    Accounts t (ledger demoLedger) ∧ lastCode (ledger demoLedger) 1 = 7 := by
  have hrun : ∃ t, Runs.run procStep procInit demoLedger = some t := ⟨_, rfl⟩
  obtain ⟨t, ht⟩ := hrun
  exact ⟨t, ht, accounts_run ht, by decide +kernel⟩

end SlopOS.Proofs.ProcLedger
